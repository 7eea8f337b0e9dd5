import DevConsole.Number.Shortest

/-!
# Values of variables

A variable is written as a text, an integer or a number of binary32, and is read as any of the
three: writing one view derives the other two. From a text the number at its start is taken.
-/

namespace DevConsole

/-- What a variable can be set to. -/
inductive Value
  | text (s : String)
  | int (i : Int32)
  | float (x : Number.Single)
  deriving DecidableEq, Repr, Inhabited

/-- The three ways in which a variable is read. -/
structure Views where
  string : String := ""
  int : Int32 := 0
  float : Number.Single := .zero
  deriving DecidableEq, Repr, Inhabited

/-- The views of a value. -/
def Value.views : Value → Views
  | .text s => ⟨s, Number.leadingInteger s, Number.leadingSingle s⟩
  | .int i => ⟨Number.integerText i, i, .ofInteger i⟩
  | .float x => ⟨x.text, x.truncate, x⟩

end DevConsole
