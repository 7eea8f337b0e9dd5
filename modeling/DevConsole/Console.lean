import DevConsole.Console.Routine
import DevConsole.Script
import DevConsole.Statement

/-!
# The console

A console owns the tables of commands, variables and aliases, the line being edited with its
history and completion, the recorder, and the queues of what it printed and changed. Here are the
operations that run no line; `Console.perform` is their common entrance, and dispatch is built on
it.

Commands, variables and aliases share one space of names: an operation that would bring a name into
one table first makes sure that no other table has it.
-/

namespace DevConsole

/-- A console. -/
structure Console where
  settings : Settings := {}
  vars : Variables := .empty
  aliases : Aliases := .empty
  commands : Commands Handler := .empty
  line : LineBuffer := .empty
  history : History := .empty
  completion : Completion := .empty
  /-- The line that the last press of the completion key left. -/
  lastCompleted : Option String := none
  recorder : Recorder := { limit := Recorder.defaultLimit }
  sink : Option Sink := none
  /-- What was printed since the output was last taken. -/
  output : List OutputLine := []
  /-- What was changed since the changes were last taken. -/
  changes : List Change := []
  clearRequested : Bool := false
  activity : Activity := .rest
  disk : Disk := .empty
  /-- The records written to the log. -/
  log : List LogRecord := []

namespace Console

/-- The variable that allows changes of cheat variables. -/
def cheatsName : String := "sv_cheats"

/-! ### Output -/

/-- Writes a record about the console to the log. -/
def note (c : Console) (source : LogSource) (level : LogLevel) (message : String) : Console :=
  { c with log := c.log ++ [.own source level message] }

/-- Puts a message on the display alone. -/
def display (c : Console) (level : Level) (message : String) : Console :=
  { c with output := c.output ++ [{ level, message }] }

/-- Hands a line to the sink. -/
def toSink (c : Console) (l : OutputLine) : Console :=
  match c.sink with
  | none => c
  | some .log => { c with log := c.log ++ [l.logged] }
  | some (.collect lines) => { c with sink := some (.collect (lines ++ [l])) }

/-- Prints a message: its lines go to the capture if there is one and the level can be captured, or
else the message goes to the sink and the display. -/
def print (c : Console) (level : Level) (message : String) : Console :=
  match c.activity.capture, level.isCapturable with
  | some lines, true =>
    { c with activity := { c.activity with capture := some (lines ++ Text.lines message) } }
  | _, _ => (c.toSink { level, message }).display level message

/-- Prints a message for information. -/
def info (c : Console) (message : String) : Console := c.print .info message

/-- Prints a warning. -/
def warn (c : Console) (message : String) : Console := c.print .warn message

/-- Prints an error. -/
def error (c : Console) (message : String) : Console := c.print .error message

/-- Takes the lines of the stage before. -/
def takePiped (c : Console) : Option (List String) × Console :=
  (c.activity.piped, { c with activity := { c.activity with piped := none } })

/-- Takes what was printed. -/
def takeOutput (c : Console) : List OutputLine × Console := (c.output, { c with output := [] })

/-- Takes what was changed. -/
def takeChanges (c : Console) : List Change × Console := (c.changes, { c with changes := [] })

/-- Takes the request for a clear display. -/
def takeClear (c : Console) : Bool × Console := (c.clearRequested, { c with clearRequested := false })

/-- Takes what the sink has collected. -/
def takeSink (c : Console) : List OutputLine × Console :=
  match c.sink with
  | some (.collect lines) => (lines, { c with sink := some (.collect []) })
  | _ => ([], c)

/-! ### Names -/

/-- The kind of the entry that keeps a name from being used for another kind. -/
def takenBy (c : Console) (name : String) (kind : EntryKind) : Option EntryKind :=
  if c.commands.contains name && kind != .command then some .command
  else if c.vars.contains name && kind != .variable then some .variable
  else if c.aliases.contains name && kind != .alias then some .alias
  else none

/-- Does something with a name, unless it belongs to another kind of entry. -/
def withName {α : Type} (c : Console) (name : String) (kind : EntryKind)
    (act : Except ConsoleError α × Console) : Except ConsoleError α × Console :=
  match c.takenBy name kind with
  | some owner =>
    (.error (.nameInUse name owner),
      c.note .dispatcher .warn ("cannot use '" ++ name ++ "', it is already a " ++ owner.name))
  | none => act

/-- Adds a command. -/
def addCommand (c : Console) (command : Command Handler) : Except ConsoleError Unit × Console :=
  c.withName command.name .command <|
    match c.commands.add command with
    | .ok commands => (.ok (), { c with commands })
    | .error e => (.error e, c)

/-- Takes out a command, if there is one with the name. -/
def removeCommand (c : Console) (name : String) : Bool × Console :=
  match c.commands.remove? name with
  | some (_, commands) => (true, { c with commands })
  | none => (false, c)

/-- Registers a variable. -/
def registerVariable (c : Console) (v : Variable) : Except ConsoleError Handle × Console :=
  c.withName v.name .variable <|
    match c.vars.register v with
    | .error e => (.error e, c)
    | .ok r =>
      let c := { c with vars := r.store }
      match r.claimed with
      | none => (.ok r.handle, c)
      | some v =>
        (.ok r.handle,
          c.note .variables .debug ("'" ++ v.name ++ "' claimed temporary variable (value \"" ++
            v.views.string ++ "\")"))

/-- Takes out the variable of a registration. -/
def unregisterVariable (c : Console) (h : Handle) : Option Variable × Console :=
  match c.vars.unregister h with
  | some (v, vars) => (some v, { c with vars })
  | none => (none, c)

/-- Sets a variable, or creates it as a temporary one. -/
def createVariable (c : Console) (name : String) (value : Value) (flags : Flags) :
    Except ConsoleError Unit × Console :=
  c.withName name .variable <|
    match c.vars.create name value flags with
    | .ok vars => (.ok (), { c with vars })
    | .error e => (.error e, c)

/-- Sets a variable whatever its flags, if there is one with the name. -/
def setVariable (c : Console) (name : String) (value : Value) : Bool × Console :=
  match c.vars.set? name value with
  | some vars => (true, { c with vars })
  | none => (false, c)

/-- Resets a variable whatever its flags, if there is one with the name. -/
def resetVariable (c : Console) (name : String) : Option Variable × Console :=
  match c.vars.reset? name with
  | some vars => (vars.get? name, { c with vars })
  | none => (none, c)

/-- Creates an alias or changes its text. -/
def setAlias (c : Console) (name value : String) : Except ConsoleError Unit × Console :=
  c.withName name .alias <|
    match c.aliases.set name value with
    | .ok aliases => (.ok (), { c with aliases })
    | .error e => (.error e, c)

/-- Takes out an alias, if there is one with the name. -/
def removeAlias (c : Console) (name : String) : Bool × Console :=
  match c.aliases.remove? name with
  | some (_, aliases) => (true, { c with aliases })
  | none => (false, c)

/-! ### Assignments -/

/-- The notices that follow a write to a variable with the flags. -/
def afterWrite (c : Console) (name : String) (flags : Flags) : Console :=
  let c := if flags.has .latch then c.info (name ++ " will be changed upon restart") else c
  if flags.has .debug then
    c.warn (name ++ " is a debug variable, changing it may destabilize the application")
  else c

/-- Sets a variable as a typed line does. System variables cannot be changed, cheat variables only
while cheats are allowed; a write is followed by the notices that the flags ask for and is queued as
a change. -/
def assign (c : Console) (name value : String) : Bool × Console :=
  match c.vars.get? name with
  | none => (false, c.error ("Unknown variable: " ++ name))
  | some v =>
    if v.flags.has .system then
      (false, c.warn (v.name ++ " is a system variable and can't be changed from the console"))
    else if v.flags.has .cheat && c.vars.int cheatsName == 0 then
      (false, c.warn (v.name ++ " is cheat protected, set " ++ cheatsName ++ " 1 first"))
    else
      let c := (c.setVariable v.name (.text value)).2
      let change := { name := v.name, old := v.views.string, new := c.vars.string v.name }
      let c := c.afterWrite v.name v.flags
      (true, { c with changes := c.changes ++ [change] })

/-! ### Editing and completion -/

/-- Puts a submitted line into the line buffer, if there is such a line. -/
def recallLine (c : Console) (back : Nat) : Bool × Console :=
  match c.history.get? back with
  | some line => (true, { c with line := c.line.set line })
  | none => (false, c)

/-- Completes the last word of a line. Several candidates are printed if `display` asks for it; if
`auto` does, the line buffer becomes the line with the word as far as all candidates agree, and a
space if there is only one. The answer is the number of candidates. -/
def complete (c : Console) (part : String) (display auto : Bool) : Nat × Console :=
  let (before, word) := splitLastWord part.toList
  let lead := String.ofList before
  let names := candidates c.commands c.vars c.aliases (String.ofList word)
  let c :=
    if display && 1 < names.length then
      names.foldl (fun c name => c.print .result ("  " ++ name)) c
    else c
  let c := { c with completion := .ofNames lead names }
  let c :=
    if auto && names ≠ [] then
      let tail := if names.length = 1 then " " else ""
      { c with line := c.line.set (lead ++ commonLead names ++ tail) }
    else c
  (names.length, c)

/-- Moves to another candidate and puts its line into the line buffer. -/
def choose (c : Console) (step : Completion.Step) : Option String × Console :=
  match c.completion.move? step with
  | some (x, completion) => (some x.name, { c with completion, line := c.line.set x.line })
  | none => (none, c)

/-- A press of the completion key. On the line that the last press left, with several candidates,
it goes on to the next one, or backward to the one before; otherwise it completes the line. -/
def cycle (c : Console) (reverse : Bool) : Nat × Console :=
  let going := 1 < c.completion.candidates.length && c.lastCompleted == some c.line.text
  let c :=
    if going then (c.choose (if reverse then .prev else .next)).2
    else (c.complete c.line.text true true).2
  (c.completion.candidates.length, { c with lastCompleted := some c.line.text })

/-! ### Recording and files -/

/-- Starts a recording. -/
def startRecording (c : Console) : Console := { c with recorder := c.recorder.start }

/-- Ends the recording; the answer is the number of its lines. -/
def stopRecording (c : Console) : Nat × Console :=
  (c.recorder.lines.size, { c with recorder := c.recorder.stop })

/-- Writes the recording to a file; the answer is the number of its lines. -/
def writeScript (c : Console) (path : String) : Except ConsoleError Nat × Console :=
  match Script.write c.recorder c.disk path with
  | .error e => (.error e, c)
  | .ok (n, disk) =>
    (.ok n,
      { c with disk }.note .script .debug
        ("wrote " ++ Number.natText n ++ " script lines to '" ++ path ++ "'"))

/-- Saves the persistent variables to a file; the answer is their number. -/
def saveConfig (c : Console) (path : String) (mode : Config.SaveMode) :
    Except ConsoleError Nat × Console :=
  match Config.save c.vars c.disk path mode with
  | (.error e, disk) => (.error e, { c with disk })
  | (.ok n, disk) =>
    (.ok n,
      { c with disk }.note .config .debug
        ("saved " ++ Number.natText n ++ " variables to '" ++ path ++ "'"))

/-- Takes over what was loaded; the answer is the number of assignments. -/
def takeLoaded (c : Console) : Except ConsoleError Config.Loaded → Except ConsoleError Nat × Console
  | .error e => (.error e, c)
  | .ok l =>
    (.ok l.count,
      l.skipped.foldl
        (fun c token => c.note .config .debug ("skipping unknown config token '" ++ token ++ "'"))
        { c with vars := l.store })

/-- Loads a config file. -/
def loadConfig (c : Console) (path : String) : Except ConsoleError Nat × Console :=
  c.takeLoaded (Config.loadFile c.vars c.disk path)

/-- Loads a config text; `path` is the file that an error speaks of. -/
def loadText (c : Console) (text path : String) : Except ConsoleError Nat × Console :=
  c.takeLoaded (Config.load c.vars text path)

/-! ### All operations -/

/-- What a routine sees of the console. -/
def snapshot (c : Console) : Snapshot where
  settings := c.settings
  vars := c.vars
  aliases := c.aliases
  commands := c.commands.withoutHandlers
  line := c.line
  history := c.history
  completion := c.completion
  recorder := c.recorder
  output := c.output
  isPiped := c.activity.piped.isSome
  aliasDepth := c.activity.aliasDepth

/-- Carries out an operation. -/
def perform (c : Console) : (o : Operation) → o.Answer × Console
  | .print level message => ((), c.print level message)
  | .display level message => ((), c.display level message)
  | .note source level message => ((), c.note source level message)
  | .takePiped => c.takePiped
  | .registerVariable v => c.registerVariable v
  | .unregisterVariable h => c.unregisterVariable h
  | .createVariable name value flags => c.createVariable name value flags
  | .setVariable name value => c.setVariable name value
  | .resetVariable name => c.resetVariable name
  | .assign name value => c.assign name value
  | .setAlias name value => c.setAlias name value
  | .removeAlias name => c.removeAlias name
  | .removeCommand name => c.removeCommand name
  | .setEcho on => ((), { c with settings := { c.settings with echo := on } })
  | .setSink sink => ((), { c with sink })
  | .requestClear => ((), { c with clearRequested := true })
  | .takeOutput => c.takeOutput
  | .takeChanges => c.takeChanges
  | .takeClear => c.takeClear
  | .edit f => ((), { c with line := f c.line })
  | .recallLine back => c.recallLine back
  | .complete part display auto => c.complete part display auto
  | .choose step => c.choose step
  | .cycle reverse => c.cycle reverse
  | .startRecording => ((), c.startRecording)
  | .stopRecording => c.stopRecording
  | .writeScript path => c.writeScript path
  | .saveConfig path mode => c.saveConfig path mode
  | .loadConfig path => c.loadConfig path
  | .loadText text path => c.loadText text path

end Console

end DevConsole
