import DevConsole.Proofs.Run.Printed

/-!
# Operations that print

An assignment, a completion and a press of the completion key print messages one by one, none of
them an echo, and change only the variables, the changes, the line buffer and the completion
besides. So a relation between consoles that a single message and these changes keep is kept by all
operations that print (`Printing.perform`).
-/

namespace DevConsole

/-- The operation prints messages. -/
def Operation.isPrinting : Operation → Bool
  | .print .. | .assign .. | .complete .. | .cycle _ => true
  | _ => false

namespace Console

theorem messages_eq_nil {o : Operation} (ho : o.isPrinting = false) (c : Console) :
    c.messages o = [] := by
  cases o with
  | print | assign | complete | cycle => cases ho
  | _ => rfl

/-- The relation between a console and a later one is kept by a printed message that is no echo, and
by all that the printing operations change besides. -/
structure Printing (R : Console → Console → Prop) : Prop where
  trans : ∀ {c d e}, R c d → R d e → R c e
  print : ∀ (c : Console) level message, level ≠ .command → R c (c.print level message)
  besides : ∀ (c : Console) vars changes line completion lastCompleted,
    R c { c with vars, changes, line, completion, lastCompleted }

namespace Printing

variable {R : Console → Console → Prop} (h : Printing R)
include h

theorem refl (c : Console) : R c c :=
  h.besides c c.vars c.changes c.line c.completion c.lastCompleted

theorem info (c : Console) (message : String) : R c (c.info message) :=
  h.print c .info message nofun

theorem warn (c : Console) (message : String) : R c (c.warn message) :=
  h.print c .warn message nofun

theorem error (c : Console) (message : String) : R c (c.error message) :=
  h.print c .error message nofun

theorem afterWrite (c : Console) (name : String) (flags : Flags) :
    R c (c.afterWrite name flags) := by
  unfold Console.afterWrite
  cases flags.has .latch <;> cases flags.has .debug
  · exact h.refl c
  · exact h.warn c _
  · exact h.info c _
  · exact h.trans (h.info c _) (h.warn _ _)

theorem setVariable (c : Console) (name : String) (value : Value) :
    R c (c.setVariable name value).2 := by
  unfold Console.setVariable
  split
  · exact h.besides c _ c.changes c.line c.completion c.lastCompleted
  · exact h.refl c

theorem assign (c : Console) (name value : String) : R c (c.assign name value).2 := by
  unfold Console.assign
  split
  · exact h.error c _
  · next v _ =>
    split
    · exact h.warn c _
    · split
      · exact h.warn c _
      · exact h.trans (h.trans (h.setVariable c v.name (.text value)) (h.afterWrite _ v.name v.flags))
          (h.besides _ _ _ _ _ _)

theorem complete (c : Console) (part : String) (display auto : Bool) :
    R c (c.complete part display auto).2 := by
  have hall : ∀ (names : List String) (d : Console),
      R d (names.foldl (fun d name => d.print .result ("  " ++ name)) d) := by
    intro names
    induction names with
    | nil => exact h.refl
    | cons name names ih => exact fun d => h.trans (h.print d .result _ nofun) (ih _)
  unfold Console.complete
  dsimp only
  obtain ⟨names, hnames⟩ : ∃ names, names = candidates c.commands c.vars c.aliases
    (String.ofList (splitLastWord part.toList).2) := ⟨_, rfl⟩
  rw [← hnames]
  have hprinted : R c (if display && 1 < names.length then
      names.foldl (fun d name => d.print .result ("  " ++ name)) c else c) := by
    split
    · exact hall names c
    · exact h.refl c
  -- from here on it does not matter how the candidates were printed
  revert hprinted
  generalize (if display && 1 < names.length then
    names.foldl (fun d name => d.print .result ("  " ++ name)) c else c) = d
  intro hprinted
  refine h.trans hprinted ?_
  split <;> exact h.besides d _ _ _ _ _

theorem choose (c : Console) (step : Completion.Step) : R c (c.choose step).2 := by
  unfold Console.choose
  split
  · exact h.besides c c.vars c.changes _ _ c.lastCompleted
  · exact h.refl c

theorem cycle (c : Console) (reverse : Bool) : R c (c.cycle reverse).2 := by
  have hstep : ∀ d, R c d → R c { d with lastCompleted := some d.line.text } :=
    fun d hd => h.trans hd (h.besides d d.vars d.changes d.line d.completion _)
  unfold Console.cycle
  refine hstep _ ?_
  split
  · exact h.choose c _
  · exact h.complete c _ _ _

/-- **What a message keeps, the printing operations keep.** -/
theorem perform {o : Operation} (ho : o.isPrinting = true) {c : Console}
    (hprint : ∀ level message, o = .print level message → R c (c.print level message)) :
    R c (c.perform o).2 := by
  cases o with
  | print level message => exact hprint level message rfl
  | assign name value => exact h.assign c name value
  | complete part display auto => exact h.complete c part display auto
  | cycle reverse => exact h.cycle c reverse
  | _ => cases ho

end Printing

end Console

end DevConsole
