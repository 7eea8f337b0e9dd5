import DevConsole.Registry

/-!
# Commands

A command is a name with a handler and an optional description. The table does not look into
handlers: `withoutHandlers` forgets them, and everything but the call itself can be asked of what
remains.
-/

namespace DevConsole

/-- A command whose handler is of type `H`. -/
structure Command (H : Type) where
  name : String
  description : Option String := none
  handler : H

instance {H : Type} : Named (Command H) := ⟨Command.name⟩

/-- A table of commands. -/
structure Commands (H : Type) where
  registry : Registry (Command H) := .empty

namespace Commands

variable {H : Type}

/-- The table without commands. -/
def empty : Commands H := {}

/-- The command with the name. -/
def get? (t : Commands H) (name : String) : Option (Command H) := t.registry.get? name

/-- A command has the name. -/
def contains (t : Commands H) (name : String) : Bool := t.registry.contains name

/-- The commands, newest first. -/
def toList (t : Commands H) : List (Command H) := t.registry.entries

/-- The commands in the order of their names. -/
def sorted (t : Commands H) : List (Command H) := t.registry.sorted

/-- The names that begin with `lead`, in order. -/
def startingWith (t : Commands H) (lead : String) : List String := t.registry.startingWith lead

/-- Adds a command under a free name. -/
def add (t : Commands H) (c : Command H) : Except ConsoleError (Commands H) := do
  checkName c.name
  if t.contains c.name then throw (.nameInUse c.name .command)
  return ⟨t.registry.insert c⟩

/-- Takes out the command with the name. -/
def remove? (t : Commands H) (name : String) : Option (Command H × Commands H) :=
  (t.registry.remove? name).map fun (c, registry) => (c, ⟨registry⟩)

/-- The same names and descriptions without the handlers. -/
def withoutHandlers (t : Commands H) : Commands Unit where
  registry :=
    { entries := t.toList.map fun c => { name := c.name, description := c.description, handler := () }
      names := t.registry.names }

end Commands

end DevConsole
