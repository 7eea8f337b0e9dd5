import DevConsole.Console.Dispatch

/-!
# The built-in commands

The commands that every console starts with: listings and help, aliases, variables, scripts and
config files, and the filters `grep` and `sort` for use behind a pipe. Each is an ordinary routine.
`Console.new` is a console with these commands and the variable that allows cheats.
-/

namespace DevConsole

namespace Builtin

open Routine

/-! ### Listings and help -/

/-- What is told about a variable. -/
def describeVariable (v : Variable) : List String :=
  [v.display] ++ (if v.description = "" then [] else [" - " ++ v.description]) ++
    (if v.flags.isEmpty then [] else [" " ++ v.flags.describe])

/-- What is told about a name, if it is known. -/
def describe? (s : Snapshot) (name : String) : Option (List String) :=
  match s.commands.get? name, s.vars.get? name, s.aliases.get? name with
  | some c, _, _ => some [c.name ++ " - " ++ c.description.getD "No description"]
  | none, some v, _ => some (describeVariable v)
  | none, none, some a => some [name ++ " = \"" ++ a.value ++ "\" (alias)"]
  | none, none, none => none

/-- Tells about a command, a variable or an alias. -/
def help : Handler := fun args =>
  match args.get? 0 with
  | none =>
    infoAll
      ["Type 'cmdlist' for commands, 'cvarlist' for variables, 'alias' for aliases",
        "Type 'help <name>' or '<command> /?' for details"]
  | some name =>
    .inspect fun s =>
      match describe? s name with
      | some lines => infoAll lines
      | none => warn ("Unknown command, variable or alias: " ++ name)

/-- Lists the commands that begin with a text. -/
def cmdlist : Handler := fun args =>
  .inspect fun s => infoAll (s.commands.startingWith ((args.get? 0).getD ""))

/-- The first bytes of the name are the text, but for case. -/
def hasLead (lead name : String) : Bool :=
  match Text.takeBytes? (Text.byteLength lead.toList) name.toList with
  | some head => Text.foldChars head == Text.foldChars lead.toList
  | none => false

/-- The variables that `cvarlist` lists for a text. -/
def listedVariables (s : Variables) (lead : String) : List Variable :=
  s.sorted.filter fun v => hasLead lead v.name

/-- Lists the variables that begin with a text, with their values. -/
def cvarlist : Handler := fun args =>
  .inspect fun s =>
    let vs := listedVariables s.vars ((args.get? 0).getD "")
    infoAll (vs.map (·.listing)) <| info (Number.natText vs.length ++ " variables")

/-- A number in four columns at least. -/
def inFourColumns (n : Nat) : String :=
  let ds := Number.digitChars n
  String.ofList (List.replicate (4 - ds.length) ' ' ++ ds)

/-- The lines of the history with their numbers, counted from `n`. -/
def numbered (n : Nat) : List String → List String
  | [] => []
  | line :: lines => (inFourColumns n ++ "  " ++ line) :: numbered (n + 1) lines

/-- Lists the submitted lines. -/
def history : Handler := fun _ =>
  .inspect fun s => infoAll (numbered 1 s.history.lines)

/-- Prints its arguments. -/
def echo : Handler := fun args => info (args.join " ")

/-- Asks for a clear display. -/
def clear : Handler := fun _ => .perform .requestClear fun _ => .done

/-! ### Aliases -/

/-- The definition of an alias in listings. -/
def aliasLine (name value : String) : String := name ++ " = \"" ++ value ++ "\""

/-- Lists all aliases, shows one, or sets one. -/
def aliases : Handler := fun args =>
  match args.words with
  | [] =>
    .inspect fun s =>
      match s.aliases.sorted with
      | [] => info "No aliases defined"
      | as => infoAll (as.map fun a => aliasLine a.name a.value)
  | [name] =>
    .inspect fun s =>
      match s.aliases.get? name with
      | some a => info (aliasLine name a.value)
      | none => warn ("Alias '" ++ name ++ "' not found")
  | name :: _ =>
    .perform (.setAlias name (args.joinFrom 1 " ")) fun
      | .ok () => .done
      | .error e => error ("alias: " ++ e.message)

/-- Takes out an alias. -/
def unalias : Handler := fun args =>
  match args.get? 0 with
  | none => warn "Usage: unalias <name>"
  | some name =>
    .perform (.removeAlias name) fun found =>
      if found then .done else warn ("Alias '" ++ name ++ "' not found")

/-! ### Variables -/

/-- Sets a variable, or creates one that is marked as the user's. -/
def set : Handler := fun args =>
  match args.words with
  | name :: _ :: _ =>
    let value := args.joinFrom 1 " "
    .inspect fun s =>
      if s.vars.contains name then .perform (.assign name value) fun _ => .done
      else
        .perform (.createVariable name (.text value) (.single .user)) fun
          | .ok () => .done
          | .error e => error ("set: " ++ e.message)
  | _ => warn "Usage: set <name> <value>"

/-- Sets a variable to its default. -/
def reset : Handler := fun args =>
  match args.get? 0 with
  | none => warn "Usage: reset <variable>"
  | some name =>
    .inspect fun s =>
      match s.vars.get? name with
      | none => warn ("Unknown variable: " ++ name)
      | some v => .perform (.assign name v.default) fun _ => .done

/-- Sets a variable to 0, or to 1 if its integer view is 0. -/
def toggle : Handler := fun args =>
  match args.get? 0 with
  | none => warn "Usage: toggle <variable>"
  | some name =>
    .inspect fun s =>
      if s.vars.contains name then
        let value := if s.vars.int name = 0 then "1" else "0"
        .perform (.assign name value) fun written =>
          if written then info (name ++ " = " ++ value) else .done
      else warn ("Unknown variable: " ++ name)

/-! ### Scripts and config files -/

/-- Runs a script file. -/
def exec : Handler := fun args =>
  match args.get? 0 with
  | none => warn "Usage: exec <file>"
  | some file =>
    .execFile file fun
      | .ok n =>
        .perform
          (.note .builtins .debug ("executed " ++ Number.natText n ++ " lines from '" ++ file ++ "'"))
          fun _ => .done
      | .error e => error ("exec: " ++ e.message)

/-- Starts a recording. -/
def record : Handler := fun _ =>
  .perform .startRecording fun _ => info "Recording, type 'stoprecord' to finish"

/-- Ends the recording. -/
def stoprecord : Handler := fun _ =>
  .inspect fun s =>
    if s.recorder.recording then
      .perform .stopRecording fun n => info ("Recorded " ++ Number.natText n ++ " lines")
    else warn "Not recording"

/-- Writes the recording to a script file. -/
def writescript : Handler := fun args =>
  match args.get? 0 with
  | none => warn "Usage: writescript <file>"
  | some file =>
    .perform (.writeScript file) fun
      | .ok n => info ("Wrote " ++ Number.natText n ++ " lines to '" ++ file ++ "'")
      | .error e => error ("writescript: " ++ e.message)

/-- Goes on with the config file that the arguments name, or else the one of the settings. -/
def withConfigPath (args : Args) (next : String → Routine) : Routine :=
  .inspect fun s => next ((args.get? 0).getD s.settings.configPath)

/-- Saves the persistent variables. -/
def writeconfig : Handler := fun args =>
  withConfigPath args fun path =>
    .perform (.saveConfig path .overwrite) fun
      | .ok n => info ("Saved " ++ Number.natText n ++ " variables to '" ++ path ++ "'")
      | .error e => error ("writeconfig: " ++ e.message)

/-- Loads a config file. -/
def loadconfig : Handler := fun args =>
  withConfigPath args fun path =>
    .perform (.loadConfig path) fun
      | .ok n => info ("Loaded " ++ Number.natText n ++ " variables from '" ++ path ++ "'")
      | .error e => error ("loadconfig: " ++ e.message)

/-! ### Filters -/

/-- The lines that hold a text. -/
def keepMatching (pattern : String) (lines : List String) : List String :=
  lines.filter fun line => Text.contains line pattern

/-- Passes on the lines that hold a text. -/
def grep : Handler := fun args =>
  match args.get? 0 with
  | none => warn "Usage: <command> | grep <text>"
  | some pattern =>
    .perform .takePiped fun
      | some lines => infoAll (keepMatching pattern lines)
      | none => error "grep: no input, use it after a pipe (cmdlist | grep <text>)"

/-- The lines in order but for case; lines that differ in case alone stay in their order. -/
def sortLines (lines : List String) : List String :=
  lines.mergeSort fun a b => decide (Text.fold a ≤ Text.fold b)

/-- Passes on the lines in order, or from the last to the first if the argument is a negative
number. -/
def sort : Handler := fun args =>
  .perform .takePiped fun
    | some lines =>
      let lines := sortLines lines
      infoAll (if args.integerOr 0 0 < 0 then lines.reverse else lines)
    | none => error "sort: no input, use it after a pipe (cvarlist | sort)"

/-! ### All of them -/

/-- A command with a description. -/
def command (name description : String) (handler : Handler) : Command Handler :=
  { name, description := some description, handler }

/-- The built-in commands in the order in which they are added. -/
def commands : List (Command Handler) :=
  [command "help" "Show help for a command, variable or alias" help,
    command "cmdlist" "List commands, optionally those starting with a prefix" cmdlist,
    command "cvarlist" "List variables, optionally those starting with a prefix" cvarlist,
    command "echo" "Print text to the console" echo,
    command "alias" "Create an alias (alias <name> <text>), show one, or list all" aliases,
    command "unalias" "Remove an alias" unalias,
    command "set" "Set a variable, creating a temporary one if it doesn't exist" set,
    command "reset" "Reset a variable to its default value" reset,
    command "toggle" "Toggle a variable between 0 and 1" toggle,
    command "history" "List previously submitted lines" history,
    command "clear" "Clear console output" clear,
    command "exec" "Execute commands from a script file" exec,
    command "record" "Start recording typed commands" record,
    command "stoprecord" "Stop recording typed commands" stoprecord,
    command "writescript" "Write recorded commands to a script file" writescript,
    command "writeconfig" "Save persistent variables to a config file" writeconfig,
    command "loadconfig" "Load variables from a config file" loadconfig,
    command "grep" "Keep piped lines containing the text (case-sensitive)" grep,
    command "sort" "Sort piped lines, descending when the order argument is negative" sort]

/-- The variable that allows changes of cheat variables. -/
def cheats : Variable :=
  .ofValue Console.cheatsName (.int 0) .empty "Allow changing cheat protected variables"

end Builtin

namespace Console

/-- A console with its settings and nothing in its tables. -/
def bare (settings : Settings) : Console where
  settings
  recorder := { limit := settings.maxScriptLines }
  sink := if settings.logsOutput then some .log else none

/-- A new console with the built-in commands. -/
def new (settings : Settings) : Console :=
  Builtin.commands.foldl (fun c command => (c.addCommand command).2)
    ((bare settings).registerVariable Builtin.cheats).2

end Console

end DevConsole
