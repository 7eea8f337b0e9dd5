import DevConsole.Editor.Recorder
import DevConsole.Output

/-!
# Settings of a console

What a console is set up with, where its output goes, and what it is in the middle of.
-/

namespace DevConsole

/-- What a console is set up with. -/
structure Settings where
  /-- Stands before an echoed statement. -/
  promptText : String := "] "
  /-- Statements are echoed. -/
  echo : Bool := true
  /-- The config file unless another one is named. -/
  configPath : String := "console.cfg"
  /-- The most lines that a recording can have. -/
  maxScriptLines : Nat := Recorder.defaultLimit
  /-- Output is written to the log too. -/
  logsOutput : Bool := true
  deriving DecidableEq, Repr, Inhabited

/-- Where printed lines go besides the display. -/
inductive Sink
  /-- To the log. -/
  | log
  /-- To a list, oldest line first. -/
  | collect (lines : List OutputLine)
  deriving DecidableEq, Repr, Inhabited

/-- What a console is in the middle of. -/
structure Activity where
  /-- The lines captured from the current stage, if its output is captured. -/
  capture : Option (List String) := none
  /-- The lines captured from the stage before, until they are taken. -/
  piped : Option (List String) := none
  /-- The number of aliases expanded since the outermost one that is still running. -/
  aliasDepth : Nat := 0
  /-- The number of script files that are running. -/
  execDepth : Nat := 0
  /-- A submitted line is running. -/
  dispatching : Bool := false
  deriving DecidableEq, Repr, Inhabited

/-- Nothing is running. -/
def Activity.rest : Activity := {}

end DevConsole
