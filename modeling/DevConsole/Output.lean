/-!
# Output lines

What the console prints, and at which level. Warnings and errors always reach the display; all
other levels can be captured as the input of the next stage of a pipeline.
-/

namespace DevConsole

/-- The level of an output line. -/
inductive Level
  | debug
  | info
  | warn
  | error
  /-- The echo of a statement. -/
  | command
  /-- A candidate of a completion. -/
  | result
  deriving DecidableEq, Repr, Inhabited

/-- A short tag for plain displays. -/
def Level.label : Level → String
  | .debug => "[DEBUG]"
  | .info => "[INFO]"
  | .warn => "[WARN]"
  | .error => "[ERROR]"
  | .command => "[$]"
  | .result => "[>]"

/-- Lines of the level can be captured by a pipeline. -/
def Level.isCapturable : Level → Bool
  | .warn | .error => false
  | _ => true

/-- A printed message. -/
structure OutputLine where
  level : Level := .info
  message : String
  deriving DecidableEq, Repr, Inhabited

namespace OutputLine

/-- A message for information. -/
def info (message : String) : OutputLine := { level := .info, message }

/-- A warning. -/
def warn (message : String) : OutputLine := { level := .warn, message }

/-- An error. -/
def error (message : String) : OutputLine := { level := .error, message }

end OutputLine

/-- A write to a variable from the console. -/
structure Change where
  /-- The name as registered. -/
  name : String
  old : String
  new : String
  deriving DecidableEq, Repr, Inhabited

end DevConsole
