import DevConsole.Registry
import DevConsole.Text.Bytes

/-!
# Aliases

An alias is a name for a piece of a line. When a stage begins with the name, the text is run in its
place, followed by the rest of the stage.
-/

namespace DevConsole

/-- A name and the text it stands for. -/
structure Alias where
  name : String
  value : String
  deriving DecidableEq, Repr, Inhabited

instance : Named Alias := ⟨Alias.name⟩

/-- The most bytes that an alias name may have. -/
def Alias.maxNameLength : Nat := 32

/-- A table of aliases. -/
structure Aliases where
  registry : Registry Alias := .empty
  deriving Inhabited

namespace Aliases

/-- The table without aliases. -/
def empty : Aliases := {}

/-- The alias with the name. -/
def get? (t : Aliases) (name : String) : Option Alias := t.registry.get? name

/-- An alias has the name. -/
def contains (t : Aliases) (name : String) : Bool := t.registry.contains name

/-- The aliases, newest first. -/
def toList (t : Aliases) : List Alias := t.registry.entries

/-- The aliases in the order of their names. -/
def sorted (t : Aliases) : List Alias := t.registry.sorted

/-- The names that begin with `lead`, in order. -/
def startingWith (t : Aliases) (lead : String) : List String := t.registry.startingWith lead

/-- Creates an alias, or changes the text of the one with the name. Refuses a text that is no
name, a name that is too long, and an alias for itself. -/
def set (t : Aliases) (name value : String) : Except ConsoleError Aliases := do
  checkName name
  if Alias.maxNameLength < Text.byteLength name.toList then
    throw (.aliasTooLong name Alias.maxNameLength)
  if Text.sameName (Text.trim value) name then
    throw (.selfReferential name)
  if t.contains name then
    return ⟨t.registry.modify name ({ · with value })⟩
  else
    return ⟨t.registry.insert { name, value }⟩

/-- Takes out the alias with the name. -/
def remove? (t : Aliases) (name : String) : Option (Alias × Aliases) :=
  (t.registry.remove? name).map fun (a, registry) => (a, ⟨registry⟩)

/-- Completes the beginning of a name: the alias of that very name if there is one, or else the
first in order that begins so. Nothing completes the empty text. -/
def complete? (t : Aliases) (part : String) : Option String :=
  if part = "" then none
  else ((t.get? part).map (·.name)).or (t.startingWith part).head?

end Aliases

end DevConsole
