import DevConsole.Registry
import DevConsole.Variable

/-!
# The store of variables

Variables by name, with handles counted up over all variables ever created. A variable that is
created on the spot is temporary: a later registration of its name takes its place and, unless the
new variable is a system variable, its value.

Flags restrict nothing here: what a line at the console may change is decided where it is run.
-/

namespace DevConsole

/-- A store of variables. -/
structure Variables where
  registry : Registry Variable := .empty
  nextHandle : Nat := 0
  deriving Inhabited

/-- What a registration leads to. -/
structure Registration where
  /-- Identifies the new variable. -/
  handle : Handle
  /-- The store with the new variable. -/
  store : Variables
  /-- The new variable, if it took the place of a temporary one. -/
  claimed : Option Variable := none
  deriving Inhabited

namespace Variables

/-- The store without variables. -/
def empty : Variables := {}

/-- The variable with the name. -/
def get? (s : Variables) (name : String) : Option Variable := s.registry.get? name

/-- A variable has the name. -/
def contains (s : Variables) (name : String) : Bool := s.registry.contains name

/-- The text of a variable; empty if there is none. -/
def string (s : Variables) (name : String) : String :=
  ((s.get? name).map (·.views.string)).getD ""

/-- The integer view of a variable; 0 if there is none. -/
def int (s : Variables) (name : String) : Int32 := ((s.get? name).map (·.views.int)).getD 0

/-- The binary32 view of a variable; 0 if there is none. -/
def float (s : Variables) (name : String) : Number.Single :=
  ((s.get? name).map (·.views.float)).getD .zero

/-- The default text of a variable; empty if there is none. -/
def default (s : Variables) (name : String) : String := ((s.get? name).map (·.default)).getD ""

/-- The variables, newest first. -/
def toList (s : Variables) : List Variable := s.registry.entries

/-- The variables in the order of their names. -/
def sorted (s : Variables) : List Variable := s.registry.sorted

/-- The names that begin with `lead`, in order. -/
def startingWith (s : Variables) (lead : String) : List String := s.registry.startingWith lead

/-- The variables that config files keep, newest first. -/
def persistent (s : Variables) : List Variable := s.toList.filter (·.flags.has .persistent)

/-- The variables whose text is not their default, newest first. -/
def modified (s : Variables) : List Variable := s.toList.filter (·.isModified)

/-- Puts a variable in front under the next handle. -/
def add (s : Variables) (v : Variable) : Registration where
  handle := ⟨s.nextHandle⟩
  store :=
    { registry := s.registry.insert { v with handle := some ⟨s.nextHandle⟩ }
      nextHandle := s.nextHandle + 1 }

/-- Registers a variable. The name has to be free or that of a temporary variable, which makes
way. -/
def register (s : Variables) (v : Variable) : Except ConsoleError Registration := do
  checkName v.name
  match s.registry.remove? v.name with
  | none => return s.add v
  | some (old, registry) =>
    if old.flags.has .temp then
      let v := if v.flags.has .system then v else v.withValueOf old
      return { { s with registry }.add v with claimed := some v }
    else
      throw (.nameInUse v.name .variable)

/-- Takes out the variable of a registration. -/
def unregister (s : Variables) (h : Handle) : Option (Variable × Variables) :=
  (s.registry.removeWhere? (·.handle == some h)).map fun (v, registry) => (v, { s with registry })

/-- Sets a variable, if there is one with the name. -/
def set? (s : Variables) (name : String) (value : Value) : Option Variables :=
  if s.contains name then some { s with registry := s.registry.modify name (·.set value) } else none

/-- Resets a variable, if there is one with the name. -/
def reset? (s : Variables) (name : String) : Option Variables :=
  if s.contains name then some { s with registry := s.registry.modify name (·.reset) } else none

/-- Sets a variable, or creates it as a temporary one with the value as its default. -/
def create (s : Variables) (name : String) (value : Value) (flags : Flags) :
    Except ConsoleError Variables :=
  match s.set? name value with
  | some s => .ok s
  | none => do
    checkName name
    return (s.add (.ofValue name value (flags.union (.single .temp)))).store

end Variables

end DevConsole
