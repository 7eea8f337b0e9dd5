import DevConsole.Proofs.Pipeline.Run
import DevConsole.Proofs.Text.Trimmed

/-!
# Lines one after the other

A `;` between two texts runs one after the other, wherever the line is run: on a console at rest, or
from a handler in the middle of a pipeline (`nested_sequence`). What a statement does depends on its
trimmed text alone, so a line does what its statements do, however it is trimmed
(`executeNested_eq`), and the statements of two texts with a `;` between them are those of the first
and then those of the second.
-/

namespace DevConsole

/-! ### Statements and white space -/

theorem notBlank_separator {c : Char} (hc : Text.isBlank c = true) :
    (c == statementSeparator) = false ∧ (c == stageSeparator) = false := by
  constructor
  · refine Bool.eq_false_iff.mpr fun h => ?_
    rw [eq_of_beq h] at hc
    revert hc
    decide
  · refine Bool.eq_false_iff.mpr fun h => ?_
    rw [eq_of_beq h] at hc
    revert hc
    decide

/-- White space around a statement makes no difference to its stages. -/
theorem stages_trim (statement : String) : stages (Text.trim statement) = stages statement := by
  unfold stages
  rw [Text.trim, String.toList_ofList,
    Text.map_trimChars_pieces_trimChars fun c hc => (notBlank_separator hc).2]

theorem map_trim_statements (line : String) :
    (statements (Text.trim line)).map Text.trim = (statements line).map Text.trim := by
  have hmap : ∀ cs : List Char,
      ((Text.pieces (· == statementSeparator) cs).map String.ofList).map Text.trim =
        ((Text.pieces (· == statementSeparator) cs).map Text.trimChars).map String.ofList := by
    intro cs
    simp [Text.trim]
  unfold statements
  rw [hmap, hmap, Text.trim, String.toList_ofList,
    Text.map_trimChars_pieces_trimChars fun c hc => (notBlank_separator hc).1]

theorem statements_append (a b : String) :
    statements (a ++ ";" ++ b) = statements a ++ statements b := by
  have hline : (a ++ ";" ++ b).toList = a.toList ++ statementSeparator :: b.toList := by
    simp [statementSeparator]
  rw [statements, hline, Text.pieces_append_cons (by decide), List.map_append, ← statements,
    ← statements]

namespace Console

variable {run : LineRunner}

theorem runStatement_trim (statement : String) (c : Console) :
    runStatement run (Text.trim statement) c = runStatement run statement c := by
  unfold runStatement
  rw [stages_trim]
  cases stages statement with
  | nil => rfl
  | cons first rest =>
    unfold echo
    rw [Text.trim_trim]

theorem runStatements_map_trim : ∀ (texts : List String) (c : Console),
    runStatements run (texts.map Text.trim) c = runStatements run texts c
  | [], _ => rfl
  | text :: texts, c => by
    rw [List.map_cons, runStatements, runStatements, runStatement_trim]
    exact congrArg _ (funext fun d => runStatements_map_trim texts d)

theorem runStatements_append : ∀ (texts texts' : List String) (c : Console),
    runStatements run (texts ++ texts') c =
      (runStatements run texts c).bind (runStatements run texts')
  | [], _, _ => rfl
  | text :: texts, texts', c => by
    rw [List.cons_append, runStatements, runStatements, Option.bind_assoc]
    exact congrArg _ (funext fun d => runStatements_append texts texts' d)

/-- White space around a line makes no difference to its run. -/
theorem runLine_trim (limit : Nat) (line : String) (c : Console) :
    runLine limit (Text.trim line) c = runLine limit line c := by
  rw [runLine_eq, runLine_eq, ← runStatements_map_trim, map_trim_statements, runStatements_map_trim]

/-- **A nested line runs its statements**, a blank one none. -/
theorem executeNested_eq (limit : Nat) (line : String) (c : Console) :
    c.executeNested limit line = runLine limit line c := by
  unfold executeNested nestedWith
  dsimp only
  split
  · next hblank =>
    rw [← runLine_trim, hblank, runLine_eq]
    rfl
  · exact runLine_trim limit line c

theorem runLine_append (limit : Nat) (a b : String) (c : Console) :
    runLine limit (a ++ ";" ++ b) c = (runLine limit a c).bind (runLine limit b) := by
  rw [runLine_eq, statements_append, runStatements_append, runLine_eq]
  exact congrArg _ (funext fun d => (runLine_eq limit b d).symm)

/-- **A `;` is sequencing.** -/
theorem nested_sequence (limit : Nat) (a b : String) (c : Console) (next : Routine) :
    c.executeNested limit (a ++ ";" ++ b) =
        (c.executeNested limit a).bind (executeNested limit b) ∧
      runRoutine (runLine limit) (.nested (a ++ ";" ++ b) next) c =
        runRoutine (runLine limit) (.nested a (.nested b next)) c := by
  have hline : c.executeNested limit (a ++ ";" ++ b) =
      (c.executeNested limit a).bind (executeNested limit b) := by
    rw [executeNested_eq, runLine_append, executeNested_eq]
    exact congrArg _ (funext fun d => (executeNested_eq limit b d).symm)
  refine ⟨hline, ?_⟩
  show (c.executeNested limit (a ++ ";" ++ b)).bind _ = _
  rw [hline, Option.bind_assoc]
  rfl

end Console

end DevConsole
