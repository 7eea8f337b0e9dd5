import DevConsole.Command.Args
import DevConsole.Config.File
import DevConsole.Console.Settings
import DevConsole.Editor.Completion
import DevConsole.Editor.History
import DevConsole.Editor.LineBuffer
import DevConsole.Log

/-!
# What a command does

The handler of a command turns the arguments of a call into a `Routine`: a finite tree of steps on
the console, each with a continuation for its answer. Steps that run no further line are
`Operation`s, whose answers have the type `Operation.Answer`. The others dispatch: they run a line
or a script and so can reach any other command. A routine can also look at a `Snapshot` of the
console, which holds everything but handlers and what the console is in the middle of.

Since a routine is a value, a law of the console that holds for every step holds, by induction,
for every command that anyone may add.
-/

namespace DevConsole

/-! ### Operations and their answers -/

/-- A step on the console that runs no further line. -/
inductive Operation
  /-- Prints a message, into the capture if there is one. -/
  | print (level : Level) (message : String)
  /-- Puts a message on the display alone. -/
  | display (level : Level) (message : String)
  /-- Writes a record about the console to the log. -/
  | note (source : LogSource) (level : LogLevel) (message : String)
  /-- Takes the lines of the stage before. -/
  | takePiped
  /-- Registers a variable. -/
  | registerVariable (v : Variable)
  /-- Takes out the variable of a registration. -/
  | unregisterVariable (h : Handle)
  /-- Sets a variable or creates it as a temporary one. -/
  | createVariable (name : String) (value : Value) (flags : Flags)
  /-- Sets a variable whatever its flags. -/
  | setVariable (name : String) (value : Value)
  /-- Resets a variable whatever its flags. -/
  | resetVariable (name : String)
  /-- Sets a variable as a typed line does. -/
  | assign (name value : String)
  /-- Creates or changes an alias. -/
  | setAlias (name value : String)
  /-- Takes out an alias. -/
  | removeAlias (name : String)
  /-- Takes out a command. -/
  | removeCommand (name : String)
  /-- Turns echo on or off. -/
  | setEcho (on : Bool)
  /-- Replaces the sink. -/
  | setSink (sink : Option Sink)
  /-- Asks for a clear display. -/
  | requestClear
  /-- Takes the printed lines. -/
  | takeOutput
  /-- Takes the changes of variables. -/
  | takeChanges
  /-- Takes the request for a clear display. -/
  | takeClear
  /-- Edits the line. -/
  | edit (f : LineBuffer → LineBuffer)
  /-- Puts a submitted line into the line buffer. -/
  | recallLine (back : Nat)
  /-- Completes the last word of a line. -/
  | complete (part : String) (display auto : Bool)
  /-- Puts a candidate into the line buffer. -/
  | choose (step : Completion.Step)
  /-- Completes the line buffer or goes on to another candidate. -/
  | cycle (reverse : Bool)
  /-- Starts a recording. -/
  | startRecording
  /-- Ends the recording. -/
  | stopRecording
  /-- Writes the recording to a file. -/
  | writeScript (path : String)
  /-- Saves the persistent variables. -/
  | saveConfig (path : String) (mode : Config.SaveMode)
  /-- Loads a config file. -/
  | loadConfig (path : String)
  /-- Loads a config text. -/
  | loadText (text path : String)

/-- The type of an operation's answer. -/
abbrev Operation.Answer : Operation → Type
  | .print .. | .display .. | .note .. | .setEcho _ | .setSink _ | .requestClear | .edit _
  | .startRecording => Unit
  | .takePiped => Option (List String)
  | .registerVariable _ => Except ConsoleError Handle
  | .unregisterVariable _ | .resetVariable _ => Option Variable
  | .createVariable .. | .setAlias .. => Except ConsoleError Unit
  | .setVariable .. | .assign .. | .removeAlias _ | .removeCommand _ | .takeClear | .recallLine _ => Bool
  | .takeOutput => List OutputLine
  | .takeChanges => List Change
  | .complete .. | .cycle _ | .stopRecording => Nat
  | .choose _ => Option String
  | .writeScript _ | .saveConfig .. | .loadConfig _ | .loadText .. => Except ConsoleError Nat

/-! ### Routines -/

/-- What a routine can look at. -/
structure Snapshot where
  settings : Settings
  vars : Variables
  aliases : Aliases
  commands : Commands Unit
  line : LineBuffer
  history : History
  completion : Completion
  recorder : Recorder
  output : List OutputLine
  /-- The stage before has left lines that were not taken. -/
  isPiped : Bool
  aliasDepth : Nat

/-- What a command does, step by step. -/
inductive Routine
  /-- Nothing more. -/
  | done
  /-- Carries out an operation and goes on with its answer. -/
  | perform (o : Operation) (next : o.Answer → Routine)
  /-- Looks at the console. -/
  | inspect (next : Snapshot → Routine)
  /-- Adds a command. -/
  | addCommand (name : String) (description : Option String) (handler : Args → Routine)
    (next : Except ConsoleError Unit → Routine)
  /-- Runs a line as the user submits it; inside a submitted line the same as `nested`. -/
  | execute (line : String) (next : Routine)
  /-- Runs a line within the current stage. -/
  | nested (line : String) (next : Routine)
  /-- Takes the line buffer and runs it as `execute` does. -/
  | submit (next : Routine)
  /-- Runs a script file; the answer is the number of its lines. -/
  | execFile (path : String) (next : Except ConsoleError Nat → Routine)

/-- What a command does with its arguments. -/
abbrev Handler := Args → Routine

namespace Routine

/-- Prints a message. -/
def print (level : Level) (message : String) (next : Routine := .done) : Routine :=
  .perform (.print level message) fun _ => next

/-- Prints a message for information. -/
def info (message : String) (next : Routine := .done) : Routine := print .info message next

/-- Prints a warning. -/
def warn (message : String) (next : Routine := .done) : Routine := print .warn message next

/-- Prints an error. -/
def error (message : String) (next : Routine := .done) : Routine := print .error message next

/-- Prints messages for information, one after the other. -/
def infoAll (messages : List String) (next : Routine := .done) : Routine :=
  messages.foldr (fun message next => info message next) next

end Routine

end DevConsole
