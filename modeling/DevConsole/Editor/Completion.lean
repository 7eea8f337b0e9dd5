import DevConsole.Aliases
import DevConsole.Commands
import DevConsole.Text.Bytes
import DevConsole.Variables

/-!
# Completing names

`candidates` collects the names of commands, variables and aliases that begin with a word, one
spelling for each name, in order, the word itself first. `commonLength` says how far all of them
agree. A `Completion` keeps the candidates of the last question and walks through them in a circle.
-/

namespace DevConsole

/-! ### The candidates -/

/-- The names without those that repeat the name before them. -/
def dropRepeats (last : String) : List String → List String
  | [] => []
  | name :: names =>
    if Text.sameName last name then dropRepeats last names
    else name :: dropRepeats name names

/-- The names in order, the first of equal names alone. -/
def mergeNames (names : List String) : List String :=
  match names.mergeSort nameBefore with
  | [] => []
  | name :: names => name :: dropRepeats name names

/-- Puts the name that is the word itself in front. -/
def exactFirst (word : String) (names : List String) : List String :=
  match names.findIdx? (Text.sameName · word) with
  | some i => names[i]?.toList ++ names.eraseIdx i
  | none => names

/-- The names that complete a word. -/
def candidates {H : Type} (commands : Commands H) (vars : Variables) (aliases : Aliases)
    (word : String) : List String :=
  exactFirst word
    (mergeNames (commands.startingWith word ++ vars.startingWith word ++
      aliases.startingWith word))

/-! ### What the candidates share -/

/-- The characters at the same place of two texts differ, and not only in case. The first one comes
with its position. -/
def differ (p : (Nat × Char) × Char) : Bool := p.1.2.toLower != p.2.toLower

/-- How many bytes of the first text agree with the second, but for case: up to where the first pair
of characters differs, or to the end of the shorter text. -/
def sharedLength (as bs : List Char) : Nat :=
  match ((Text.charIndices 0 as).zip bs).find? differ with
  | some ((i, _), _) => i
  | none => min (Text.byteLength as) (Text.byteLength bs)

/-- How many bytes of the first name agree with every name, but for case. -/
def commonLength : List String → Nat
  | [] => 0
  | first :: names =>
    names.foldl (fun n name => min n (sharedLength first.toList name.toList))
      (Text.byteLength first.toList)

/-- The beginning that all names share, as the first one spells it. -/
def commonLead (names : List String) : String :=
  String.ofList ((Text.takeBytes? (commonLength names) ((names.headD "").toList)).getD [])

/-! ### Walking through them -/

/-- A name that completes a line after its last word was cut off. -/
structure Candidate where
  /-- The line before the word. -/
  lead : String
  name : String
  deriving DecidableEq, Repr, Inhabited

/-- The completed line. -/
def Candidate.line (c : Candidate) : String := c.lead ++ c.name

/-- The candidates of the last question. -/
structure Completion where
  candidates : List Candidate := []
  /-- The place of the current candidate, once one was chosen. -/
  cursor : Option Nat := none
  deriving DecidableEq, Repr, Inhabited

/-- A move through the candidates. -/
inductive Completion.Step
  | first
  | last
  | next
  | prev
  deriving DecidableEq, Repr, Inhabited

namespace Completion

/-- No candidates. -/
def empty : Completion := {}

/-- The candidates for a new question. -/
def ofNames (lead : String) (names : List String) : Completion where
  candidates := names.map fun name => { lead, name }

/-- The current candidate. -/
def current? (c : Completion) : Option Candidate := c.cursor.bind fun i => c.candidates[i]?

/-- Where a move ends. Forward from the last candidate is the first, and backward from the first
the last; without a current one, forward begins at the first and backward at the last. -/
def target (c : Completion) : Step → Nat
  | .first => 0
  | .last => c.candidates.length - 1
  | .next =>
    match c.cursor with
    | none => 0
    | some i => (i + 1) % c.candidates.length
  | .prev =>
    match c.cursor with
    | none => c.candidates.length - 1
    | some i => (i + c.candidates.length - 1) % c.candidates.length

/-- Moves to another candidate, if there are any. -/
def move? (c : Completion) (step : Step) : Option (Candidate × Completion) :=
  (c.candidates[c.target step]?).map fun x => (x, { c with cursor := some (c.target step) })

end Completion

end DevConsole
