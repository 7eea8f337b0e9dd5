import DevConsole.Name
import DevConsole.Variable.Flags
import DevConsole.Variable.Value

/-!
# Variables

A variable has a name, a value in three views, and the text of the value it started with, which is
what `reset` goes back to. A registered variable also carries the handle of its registration.
-/

namespace DevConsole

/-- The number of one registration; no two registrations in a store share one. -/
structure Handle where
  number : Nat
  deriving DecidableEq, Repr, Inhabited

/-- A console variable. -/
structure Variable where
  name : String
  views : Views
  default : String
  flags : Flags := .empty
  description : String := ""
  handle : Option Handle := none
  deriving DecidableEq, Repr, Inhabited

instance : Named Variable := ⟨Variable.name⟩

namespace Variable

/-- A variable that starts with a value. -/
def ofValue (name : String) (value : Value) (flags : Flags := .empty) (description : String := "") :
    Variable :=
  { name, views := value.views, default := value.views.string, flags, description }

/-- The variable with a new value in all three views. -/
def set (v : Variable) (value : Value) : Variable := { v with views := value.views }

/-- The variable with the value that its default text gives. -/
def reset (v : Variable) : Variable := v.set (.text v.default)

/-- The variable with the value of another one; its own default stays. -/
def withValueOf (v other : Variable) : Variable := { v with views := other.views }

/-- The text differs from the default. -/
def isModified (v : Variable) : Bool := v.views.string != v.default

/-- Name, value and default in one line. -/
def display (v : Variable) : String :=
  "\"" ++ v.name ++ "\" : \"" ++ v.views.string ++ "\" [default: \"" ++ v.default ++ "\"]"

/-- The line for a listing of variables, a star marking a changed value. -/
def listing (v : Variable) : String :=
  Text.trimEnd (v.name ++ (if v.isModified then "*" else "") ++ " = \"" ++ v.views.string ++ "\" " ++
    v.flags.describe)

end Variable

end DevConsole
