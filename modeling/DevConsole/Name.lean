import DevConsole.Error
import DevConsole.Text.Blank
import DevConsole.Text.Fold

/-!
# Names of commands, variables and aliases

A name has to survive being typed: it is not empty, does not start with the marker of a silent
stage, and holds no white space and none of the characters that separate statements and stages or
quote a value.
-/

namespace DevConsole

/-- A character that may not occur in a name. -/
def barredFromNames (c : Char) : Bool := Text.isBlank c || c == ';' || c == '|' || c == '"'

/-- The texts that can be names. -/
def isName (name : String) : Bool :=
  let cs := name.toList
  !cs.isEmpty && cs.head? != some '@' && !cs.any barredFromNames

/-- Refuses a text that cannot be a name. -/
def checkName (name : String) : Except ConsoleError Unit :=
  if isName name then .ok () else .error (.invalidName name)

/-- Something kept under a name. -/
class Named (α : Type) where
  /-- The name as it was registered. -/
  name : α → String

/-- The order of names in listings: first without regard to case, then by code points. -/
def nameBefore (a b : String) : Bool :=
  let x := Text.fold a
  let y := Text.fold b
  decide (x < y) || (x == y && decide (a ≤ b))

end DevConsole
