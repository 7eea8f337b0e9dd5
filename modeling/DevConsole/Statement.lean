import DevConsole.Text.Blank
import DevConsole.Text.Bytes

/-!
# The grammar of a line

A line is a sequence of statements between `;`, a statement a pipeline of stages between `|`, and
a stage a row of words. A stage that starts with `@` is silent. Nothing is quoted or escaped.
-/

namespace DevConsole

/-- Stands between statements. -/
def statementSeparator : Char := ';'

/-- Stands between stages. -/
def stageSeparator : Char := '|'

/-- Starts a silent stage. -/
def silentMarker : Char := '@'

/-- Splits off the first statement; the rest is there only if a separator is. -/
def splitStatement (line : String) : String × Option String :=
  let cs := line.toList
  let first := String.ofList (cs.takeWhile (· ≠ statementSeparator))
  match cs.dropWhile (· ≠ statementSeparator) with
  | [] => (first, none)
  | _ :: rest => (first, some (String.ofList rest))

/-- The statements of a line, empty ones included. -/
def statements (line : String) : List String :=
  (Text.pieces (· == statementSeparator) line.toList).map String.ofList

/-- The texts of the stages of a statement, without white space around them; empty ones are
dropped. -/
def stages (statement : String) : List String :=
  ((Text.pieces (· == stageSeparator) statement.toList).map Text.trimChars).filterMap fun cs =>
    if cs = [] then none else some (String.ofList cs)

/-- One stage of a pipeline. -/
structure Stage where
  /-- The text without white space around it, with the marker. -/
  text : String
  /-- The text starts with the marker. -/
  silent : Bool
  /-- The words without the marker. -/
  words : List String
  deriving DecidableEq, Repr, Inhabited

namespace Stage

/-- Reads the text of a stage. -/
def ofText (text : String) : Stage :=
  let cs := Text.trimChars text.toList
  let (silent, body) :=
    match cs with
    | '@' :: body => (true, body)
    | _ => (false, cs)
  { text := String.ofList cs, silent, words := (Text.words body).map String.ofList }

/-- The word that says what to do. -/
def head? (s : Stage) : Option String := s.words.head?

/-- The words after the first. -/
def args (s : Stage) : List String := s.words.tail

end Stage

/-- A character after which a new word starts. -/
def endsWord (c : Char) : Bool :=
  Text.isBlank c || c == statementSeparator || c == stageSeparator

/-- The position behind the last character that ends a word, or the start of the line. -/
def lastBreak (cs : List Char) : Nat :=
  match (Text.charIndices 0 cs).reverse.find? (endsWord ·.2) with
  | some (i, c) => i + c.utf8Size
  | none => 0

/-- Where the last word starts, in bytes. A marker in front of the word belongs to what is before
it. -/
def wordStart (cs : List Char) : Nat :=
  let start := lastBreak cs
  if ((Text.dropBytes? start cs).getD []).head? = some silentMarker then start + 1 else start

/-- Splits a line where its last word starts. -/
def splitLastWord (cs : List Char) : List Char × List Char :=
  (Text.splitBytes? (wordStart cs) cs).getD (cs, [])

/-- Where the last word of a line starts, in bytes. -/
def lastWordStart (line : String) : Nat := wordStart line.toList

end DevConsole
