import DevConsole.Number.Decimal
import DevConsole.Text.Join

/-!
# Arguments of a command

What a command is called with: its name as typed, the text of the whole stage, and the words after
the name.
-/

namespace DevConsole

/-- The arguments of one call. -/
structure Args where
  /-- The command's name as typed. -/
  name : String
  /-- The text of the stage. -/
  raw : String
  /-- The words after the name. -/
  words : List String
  deriving DecidableEq, Repr, Inhabited

namespace Args

/-- The number of arguments. -/
def size (a : Args) : Nat := a.words.length

/-- There are no arguments. -/
def isEmpty (a : Args) : Bool := a.words.isEmpty

/-- The argument at a place, counted from 0. -/
def get? (a : Args) (i : Nat) : Option String := a.words[i]?

/-- The name and the arguments. -/
def all (a : Args) : List String := a.name :: a.words

/-- The arguments with a separator between neighbours. -/
def join (a : Args) (separator : String) : String := Text.join separator a.words

/-- The arguments from a place on with a separator between neighbours. -/
def joinFrom (a : Args) (start : Nat) (separator : String) : String :=
  Text.join separator (a.words.drop start)

/-- The argument at a place as an integer of 32 bits. -/
def integer? (a : Args) (i : Nat) : Option Int32 := (a.get? i).bind Number.integer?

/-- The argument at a place as an integer, or `default` if it is none. -/
def integerOr (a : Args) (i : Nat) (default : Int32) : Int32 := (a.integer? i).getD default

/-- The argument at a place as a number of binary32. -/
def single? (a : Args) (i : Nat) : Option Number.Single := (a.get? i).bind Number.Single.ofText?

/-- The argument at a place as a truth value, spelt in small letters. -/
def bool? (a : Args) (i : Nat) : Option Bool :=
  match a.get? i with
  | some "true" => some true
  | some "false" => some false
  | _ => none

end Args

end DevConsole
