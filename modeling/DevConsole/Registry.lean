import DevConsole.Name
import DevConsole.Trie

/-!
# Tables of named entries

A registry lists its entries newest first and keeps their names in a trie, which answers whether a
name is there and which names begin with a text. Letter case plays no role. It is up to the caller
to insert only under a free name.
-/

namespace DevConsole

/-- Entries by name, newest first. -/
structure Registry (α : Type) where
  entries : List α := []
  names : Trie Unit := .empty
  deriving Inhabited

namespace Registry

variable {α : Type} [Named α]

/-- The registry without entries. -/
def empty : Registry α := {}

/-- An entry has the name. -/
def contains (r : Registry α) (name : String) : Bool := r.names.contains name

/-- The place of the entry with the name. -/
def position? (r : Registry α) (name : String) : Option Nat :=
  if r.contains name then r.entries.findIdx? fun e => Text.sameName (Named.name e) name else none

/-- The entry with the name. -/
def get? (r : Registry α) (name : String) : Option α :=
  (r.position? name).bind fun i => r.entries[i]?

/-- The entry at a place. -/
def at? (r : Registry α) (i : Nat) : Option α := r.entries[i]?

/-- Puts an entry in front. -/
def insert (r : Registry α) (e : α) : Registry α where
  entries := e :: r.entries
  names := r.names.insert (Named.name e) ()

/-- Takes out the entry at a place. -/
def removeAt? (r : Registry α) (i : Nat) : Option (α × Registry α) :=
  (r.entries[i]?).map fun e =>
    (e, { entries := r.entries.eraseIdx i, names := r.names.erase (Named.name e) })

/-- Takes out the entry with the name. -/
def remove? (r : Registry α) (name : String) : Option (α × Registry α) :=
  (r.position? name).bind r.removeAt?

/-- Takes out the first entry that passes a test. -/
def removeWhere? (r : Registry α) (p : α → Bool) : Option (α × Registry α) :=
  (r.entries.findIdx? p).bind r.removeAt?

/-- Changes the entry with the name in its place; the name itself has to stay. -/
def modify (r : Registry α) (name : String) (f : α → α) : Registry α :=
  match r.position? name with
  | some i => { r with entries := r.entries.modify i f }
  | none => r

/-- Changes every entry in its place; the names have to stay. -/
def modifyAll (r : Registry α) (f : α → α) : Registry α :=
  { r with entries := r.entries.map f }

/-- The names that begin with `lead`, in order. -/
def startingWith (r : Registry α) (lead : String) : List String :=
  (r.names.startingWith lead).map Prod.fst

/-- All names in order. -/
def sortedNames (r : Registry α) : List String := r.startingWith ""

/-- The entries in the order of their names. -/
def sorted (r : Registry α) : List α := r.sortedNames.filterMap r.get?

/-- The number of entries. -/
def size (r : Registry α) : Nat := r.entries.length

/-- There are no entries. -/
def isEmpty (r : Registry α) : Bool := r.entries.isEmpty

end Registry

end DevConsole
