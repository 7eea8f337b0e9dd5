import DevConsole.Output
import DevConsole.Text.Escaped

/-!
# Log records

The console writes records to the log of the application it is part of, and the log can in turn be
shown in the console. Records of the target `outputTarget` are the console's own output; they are
never shown, so that nothing goes round in a circle.
-/

namespace DevConsole

/-- The level of a log record. -/
inductive LogLevel
  | error
  | warn
  | info
  | debug
  | trace
  deriving DecidableEq, Repr, Inhabited

/-- The level at which a record is shown. -/
def LogLevel.shownAs : LogLevel → Level
  | .error => .error
  | .warn => .warn
  | .info => .info
  | .debug | .trace => .debug

/-- The level at which an output line is written to the log. -/
def Level.loggedAs : Level → LogLevel
  | .debug => .debug
  | .warn => .warn
  | .error => .error
  | .info | .command | .result => .info

/-- What a record says. -/
inductive LogMessage
  /-- A message made for the record. -/
  | formatted (s : String)
  /-- A text that is a field of the record. -/
  | field (s : String)
  /-- Only other fields. -/
  | absent
  deriving DecidableEq, Repr, Inhabited

/-- A log record. -/
structure LogRecord where
  /-- The part of the application that it comes from. -/
  target : String
  level : LogLevel
  message : LogMessage
  deriving DecidableEq, Repr, Inhabited

/-- The target of the console's output. -/
def outputTarget : String := "console"

/-- The parts of the console that write records about what they do. -/
inductive LogSource
  | dispatcher
  | builtins
  | variables
  | script
  | config
  deriving DecidableEq, Repr, Inhabited

/-- The target of the records of a part: its module's path. -/
def LogSource.target : LogSource → String
  | .dispatcher => "bevy_console_shell::core::interpreter"
  | .builtins => "bevy_console_shell::core::builtins"
  | .variables => "bevy_console_shell::core::vars"
  | .script => "bevy_console_shell::core::script"
  | .config => "bevy_console_shell::persist"

/-- The text of a record, if it has one. A field is shown escaped, so that no part of it hides. -/
def LogMessage.text? : LogMessage → Option String
  | .formatted s => some s
  | .field s => some (Text.escaped s)
  | .absent => none

/-- The line that a record is shown as, if it is shown. -/
def LogRecord.shown? (r : LogRecord) : Option OutputLine :=
  if r.target = outputTarget then none
  else r.message.text?.map fun message => { level := r.level.shownAs, message }

/-- The record that an output line leaves in the log. -/
def OutputLine.logged (l : OutputLine) : LogRecord where
  target := outputTarget
  level := l.level.loggedAs
  message := .formatted l.message

/-- A record of the console about itself. -/
def LogRecord.own (source : LogSource) (level : LogLevel) (s : String) : LogRecord where
  target := source.target
  level
  message := .formatted ("Console: " ++ s)

end DevConsole
