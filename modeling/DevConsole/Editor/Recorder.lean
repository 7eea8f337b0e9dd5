/-!
# Recorded scripts

While it is on, a recorder keeps the stages that were typed, up to a limit. A script file holds one
line of the console on each of its lines; blank lines and comments are not run.
-/

namespace DevConsole

/-- A recorder of at most `limit` lines. -/
structure Recorder where
  limit : Nat
  lines : Array String := #[]
  recording : Bool := false
  deriving DecidableEq, Repr, Inhabited

namespace Recorder

/-- The limit unless another one is set. -/
def defaultLimit : Nat := 1024

/-- Starts a new recording; the old one is lost. -/
def start (r : Recorder) : Recorder := { r with lines := #[], recording := true }

/-- Ends the recording; its lines stay. -/
def stop (r : Recorder) : Recorder := { r with recording := false }

/-- Adds a line, if there is room. -/
def record? (r : Recorder) (line : String) : Option Recorder :=
  if r.limit ≤ r.lines.size then none else some { r with lines := r.lines.push line }

/-- The text of a script file with the recorded lines. -/
def text (r : Recorder) : String := String.join (r.lines.toList.map (· ++ "\n"))

end Recorder

end DevConsole
