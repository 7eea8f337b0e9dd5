import DevConsole.Console

/-!
# Dispatch

A line is run statement by statement, a statement stage by stage, and the first word of a stage
names a command, a variable or an alias, in this order. The output of every stage but the last is
captured and becomes the input of the next one.

A stage can run further lines: an alias its text, a command whatever its routine asks for, a script
its lines. These go through `run`, the dispatcher for the nesting that is left, so that everything
here is recursion on lists and routines, and `Console.runLine` is recursion on the nesting alone.
The answer is `none` if the nesting was not enough.
-/

namespace DevConsole

/-- Runs a line on a console, unless it nests too deep. -/
abbrev LineRunner := String → Console → Option Console

namespace Console

/-- How far the expansion of aliases in aliases may go. -/
def maxAliasDepth : Nat := 16

/-- How far script files may run script files. -/
def maxExecDepth : Nat := 8

/-! ### What a stage can ask for -/

/-- Runs lines one after the other. -/
def runAll (run : LineRunner) : List String → Console → Option Console
  | [], c => some c
  | line :: lines, c => (run line c).bind (runAll run lines)

/-- Runs a line within the current stage. -/
def nestedWith (run : LineRunner) (line : String) (c : Console) : Option Console :=
  let line := Text.trim line
  if line = "" then some c else run line c

/-- Runs a line as the user submits it: it is added to the history, and afterwards nothing is
captured or piped. While such a line is running, another one is run within the current stage. -/
def executeWith (run : LineRunner) (line : String) (c : Console) : Option Console :=
  let line := Text.trim line
  if line = "" then some c
  else if c.activity.dispatching then nestedWith run line c
  else
    let c :=
      { c with
        history := c.history.push line
        activity := { c.activity with dispatching := true } }
    (run line c).map fun c =>
      { c with
        activity := { c.activity with capture := none, piped := none, dispatching := false } }

/-- Takes the line buffer and runs it; candidates of a completion are dropped. -/
def submitWith (run : LineRunner) (c : Console) : Option Console :=
  let line := c.line.text
  executeWith run line
    { c with line := c.line.reset, completion := .empty, lastCompleted := none }

/-- Runs a script file; the answer is the number of its lines. Scripts that nest too deep are
skipped. -/
def execFileWith (run : LineRunner) (path : String) (c : Console) :
    Option (Except ConsoleError Nat × Console) :=
  if maxExecDepth ≤ c.activity.execDepth then
    some (.ok 0,
      c.error ("exec: '" ++ path ++ "' nested more than " ++ Number.natText maxExecDepth ++
        " deep, skipped"))
  else
    match Script.read c.disk path with
    | .error e => some (.error e, c)
    | .ok lines =>
      let c :=
        c.note .dispatcher .debug
          ("executing " ++ Number.natText lines.length ++ " lines from '" ++ path ++ "'")
      let c := { c with activity := { c.activity with execDepth := c.activity.execDepth + 1 } }
      (runAll run lines c).map fun c =>
        (.ok lines.length,
          { c with activity := { c.activity with execDepth := c.activity.execDepth - 1 } })

/-- Runs a routine. -/
def runRoutine (run : LineRunner) : Routine → Console → Option Console
  | .done, c => some c
  | .perform o next, c => runRoutine run (next (c.perform o).1) (c.perform o).2
  | .inspect next, c => runRoutine run (next c.snapshot) c
  | .addCommand name description handler next, c =>
    let (answer, c) := c.addCommand { name, description, handler }
    runRoutine run (next answer) c
  | .execute line next, c => (executeWith run line c).bind (runRoutine run next)
  | .nested line next, c => (nestedWith run line c).bind (runRoutine run next)
  | .submit next, c => (submitWith run c).bind (runRoutine run next)
  | .execFile path next, c =>
    (execFileWith run path c).bind fun (answer, c) => runRoutine run (next answer) c

/-! ### Stages -/

/-- Runs the text of an alias with the words that follow its name. The depth counts up from the
outermost alias and falls back to 0 when that one is done. -/
def expandAlias (run : LineRunner) (name value : String) (args : List String) (c : Console) :
    Option Console :=
  if maxAliasDepth ≤ c.activity.aliasDepth then
    some (c.error ("Alias '" ++ name ++ "': potential infinite recursion"))
  else
    let outermost := c.activity.aliasDepth = 0
    let line := if args = [] then value else value ++ " " ++ Text.join " " args
    (run line { c with activity := { c.activity with aliasDepth := c.activity.aliasDepth + 1 } }).map
      fun c =>
        if outermost then { c with activity := { c.activity with aliasDepth := 0 } } else c

/-- Calls a command, or prints its description if the one argument is `/?`. -/
def callCommand (run : LineRunner) (command : Command Handler) (args : Args) (c : Console) :
    Option Console :=
  if args.words = ["/?"] then
    some (c.info (command.description.getD ("'" ++ args.name ++ "' has no description")))
  else runRoutine run (command.handler args) c

/-- Runs what the first word of a stage names; the answer also says whether it names anything. -/
def dispatch (run : LineRunner) (head : String) (stage : Stage) (c : Console) :
    Option (Bool × Console) :=
  match c.commands.get? head with
  | some command =>
    (callCommand run command { name := head, raw := stage.text, words := stage.args } c).map (true, ·)
  | none =>
    match c.vars.get? head with
    | some v =>
      if stage.args = [] then some (true, c.info v.display)
      else some (true, (c.assign head (Text.join " " stage.args)).2)
    | none =>
      match c.aliases.get? head with
      | some a => (expandAlias run head a.value stage.args c).map (true, ·)
      | none => some (false, c.error ("Unknown command: " ++ head))

/-- Records a stage that was run, if a recording was on before it and still is, and the stage was
neither part of an alias nor of a script. -/
def recordStage (wasRecording : Bool) (text : String) (c : Console) : Console :=
  if wasRecording && c.recorder.recording && c.activity.aliasDepth == 0 &&
      c.activity.execDepth == 0 then
    match c.recorder.record? text with
    | some recorder => { c with recorder }
    | none => c.warn "Script buffer is full, stop recording with 'stoprecord'"
  else c

/-- Runs a stage. -/
def runStage (run : LineRunner) (stage : Stage) (c : Console) : Option Console :=
  match stage.head? with
  | none => some c
  | some head =>
    let wasRecording := c.recorder.recording
    (dispatch run head stage c).map fun (known, c) =>
      if known then recordStage wasRecording stage.text c else c

/-! ### Statements and lines -/

/-- Runs the stages of a statement. Each but the last has its output captured, as the input of the
next; the last one prints into `outer`, the capture around the statement. -/
def runStages (run : LineRunner) (outer : Option (List String)) :
    List String → Option (List String) → Console → Option Console
  | [], _, c => some c
  | [last], piped, c =>
    (runStage run (.ofText last) { c with activity := { c.activity with piped, capture := outer } }).map
      fun c => { c with activity := { c.activity with piped := none } }
  | stage :: stages, piped, c =>
    (runStage run (.ofText stage)
      { c with activity := { c.activity with piped, capture := some [] } }).bind
      fun c => runStages run outer stages (some (c.activity.capture.getD [])) c

/-- Echoes a statement, unless its output is captured, an alias is running, or it is silent. -/
def echo (statement : String) (silent : Bool) (c : Console) : Console :=
  if c.settings.echo && c.activity.capture.isNone && c.activity.aliasDepth == 0 && !silent then
    c.print .command (c.settings.promptText ++ Text.trim statement)
  else c

/-- Runs a statement. Its first stage takes over the input that was piped to the statement. -/
def runStatement (run : LineRunner) (statement : String) (c : Console) : Option Console :=
  match stages statement with
  | [] => some c
  | first :: rest =>
    let c := c.echo statement (Stage.ofText first).silent
    runStages run c.activity.capture (first :: rest) c.activity.piped c

/-- Runs statements one after the other. -/
def runStatements (run : LineRunner) : List String → Console → Option Console
  | [], c => some c
  | statement :: statements, c => (runStatement run statement c).bind (runStatements run statements)

/-- Runs a line; what it runs in turn may nest `limit` deep. -/
def runLine : (limit : Nat) → LineRunner
  | 0, line, c => runStatements (fun _ _ => none) (statements line) c
  | limit + 1, line, c => runStatements (runLine limit) (statements line) c

/-! ### The entrances for the host -/

/-- Runs a line that the user submits. -/
def execute (limit : Nat) (line : String) (c : Console) : Option Console :=
  executeWith (runLine limit) line c

/-- Runs a line that is not added to the history. -/
def executeNested (limit : Nat) (line : String) (c : Console) : Option Console :=
  nestedWith (runLine limit) line c

/-- Runs the line buffer. -/
def submit (limit : Nat) (c : Console) : Option Console := submitWith (runLine limit) c

/-- Runs a script file. -/
def execFile (limit : Nat) (path : String) (c : Console) :
    Option (Except ConsoleError Nat × Console) :=
  execFileWith (runLine limit) path c

end Console

end DevConsole
