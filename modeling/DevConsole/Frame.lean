import DevConsole.Console.Builtin

/-!
# The console in an application

An application that runs in frames sends lines to the console and shows what the console publishes.
The first frame starts with the application's own setup and then loads the config file. Every frame
runs the lines that were sent, in order, publishes what was printed, changed and requested since the
last frame, and then puts captured log records on the display, so that those are published by the
next frame.
-/

namespace DevConsole

/-- What a frame publishes. -/
structure Published where
  output : List OutputLine
  changes : List Change
  /-- The display should be cleared. -/
  clear : Bool
  deriving DecidableEq, Repr, Inhabited

/-- An application with a console. -/
structure App where
  console : Console
  /-- The config file that is loaded at the start. -/
  configPath : String
  /-- Log records are shown in the console. -/
  capturesLog : Bool
  /-- The lines sent since the last frame. -/
  inbox : List String := []
  /-- The first frame is over. -/
  started : Bool := false

namespace App

/-- An application before its first frame. -/
def new (settings : Settings) (capturesLog : Bool) : App where
  console := .new settings
  configPath := settings.configPath
  capturesLog

/-- Sends a line to the console. -/
def send (a : App) (line : String) : App := { a with inbox := a.inbox ++ [line] }

/-- Writes a record to the application's log. -/
def emit (a : App) (r : LogRecord) : App :=
  { a with console := { a.console with log := a.console.log ++ [r] } }

/-- Writes a record about the start to the log. -/
def report (c : Console) (level : LogLevel) (message : String) : Console :=
  { c with
    log := c.log ++ [{ target := LogSource.config.target, level, message := .formatted message }] }

/-- Loads the config file, if there is one. -/
def loadAtStart (path : String) (c : Console) : Console :=
  if c.disk.pathExists path then
    match c.loadConfig path with
    | (.ok n, c) =>
      report c .info ("Loaded " ++ Number.natText n ++ " variables from '" ++ path ++ "'")
    | (.error e, c) => report c .error ("Failed to load config: " ++ e.message)
  else report c .info ("No config file found at '" ++ path ++ "', using defaults")

/-- Runs submitted lines one after the other. -/
def runSent (limit : Nat) : List String → Console → Option Console
  | [], c => some c
  | line :: lines, c => (c.execute limit line).bind (runSent limit lines)

/-- Takes what the console has to publish. -/
def drain (c : Console) : Published × Console :=
  let (clear, c) := c.takeClear
  let (output, c) := c.takeOutput
  let (changes, c) := c.takeChanges
  ({ output, changes, clear }, c)

/-- Empties the log, with its records put on the display if they are captured. -/
def showLog (captures : Bool) (c : Console) : Console :=
  let shown := if captures then c.log.filterMap (·.shown?) else []
  { c with output := c.output ++ shown, log := [] }

/-- What happens before anything else in the first frame. -/
def start (setup : Console → Option Console) (a : App) : Option Console :=
  if a.started then some a.console else (setup a.console).map (loadAtStart a.configPath)

/-- One frame. -/
def frame (limit : Nat) (setup : Console → Option Console) (a : App) : Option (Published × App) :=
  (start setup a).bind fun c =>
    (runSent limit a.inbox c).map fun c =>
      let (published, c) := drain c
      (published, { a with console := showLog a.capturesLog c, inbox := [], started := true })

end App

end DevConsole
