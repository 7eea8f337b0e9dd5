import DevConsole.Proofs.Config.Assigning
import DevConsole.Proofs.Run.Printed

/-!
# What operations do to the tables

Most operations leave the tables of commands, variables and aliases and the queue of changes as they
are (`sameTables_perform`). The others act on one table; those that bring in a name do so only if no
other table has it (`withName_cases`). Loading a text only assigns to variables, or it does nothing if
the text has an open token or comment (`loadText_onlyAssigns`).
-/

namespace DevConsole

/-- The operations that may change a table or the queue of changes. -/
def Operation.isWrite : Operation → Bool
  | .registerVariable _ | .unregisterVariable _ | .createVariable .. | .setVariable ..
  | .resetVariable _ | .assign .. | .setAlias .. | .removeAlias _ | .removeCommand _ | .takeChanges
  | .loadConfig _ | .loadText .. => true
  | _ => false

namespace Console

/-- The consoles have the same tables and the same changes in their queues. -/
structure SameTables (c d : Console) : Prop where
  commands : d.commands = c.commands
  vars : d.vars = c.vars
  aliases : d.aliases = c.aliases
  changes : d.changes = c.changes

theorem SameTables.trans {c d e : Console} (h : SameTables c d) (h' : SameTables d e) :
    SameTables c e where
  commands := h'.commands.trans h.commands
  vars := h'.vars.trans h.vars
  aliases := h'.aliases.trans h.aliases
  changes := h'.changes.trans h.changes

/-! ### Operations that leave the tables -/

theorem sameTables_print (c : Console) (level : Level) (message : String) :
    SameTables c (c.print level message) := by
  have hsink : SameTables c (c.toSink ⟨level, message⟩) := by
    unfold toSink
    split <;> exact ⟨rfl, rfl, rfl, rfl⟩
  unfold print
  split
  · exact ⟨rfl, rfl, rfl, rfl⟩
  · exact ⟨hsink.commands, hsink.vars, hsink.aliases, hsink.changes⟩

theorem sameTables_afterWrite (c : Console) (name : String) (flags : Flags) :
    SameTables c (c.afterWrite name flags) := by
  unfold afterWrite
  cases flags.has .latch <;> cases flags.has .debug
  · exact ⟨rfl, rfl, rfl, rfl⟩
  · exact sameTables_print c _ _
  · exact sameTables_print c _ _
  · exact (sameTables_print c _ _).trans (sameTables_print _ _ _)

theorem sameTables_complete (c : Console) (part : String) (display auto : Bool) :
    SameTables c (c.complete part display auto).2 := by
  have hall : ∀ (names : List String) (d : Console),
      SameTables d (names.foldl (fun d name => d.print .result ("  " ++ name)) d) := by
    intro names
    induction names with
    | nil => exact fun d => ⟨rfl, rfl, rfl, rfl⟩
    | cons name names ih => exact fun d => (sameTables_print d _ _).trans (ih _)
  obtain ⟨names, hnames⟩ : ∃ names, names = candidates c.commands c.vars c.aliases
    (String.ofList (splitLastWord part.toList).2) := ⟨_, rfl⟩
  have hprinted : SameTables c (if display && 1 < names.length then
      names.foldl (fun d name => d.print .result ("  " ++ name)) c else c) := by
    split
    · exact hall names c
    · exact ⟨rfl, rfl, rfl, rfl⟩
  unfold complete
  dsimp only
  rw [← hnames]
  split <;> exact ⟨hprinted.commands, hprinted.vars, hprinted.aliases, hprinted.changes⟩

theorem sameTables_choose (c : Console) (step : Completion.Step) :
    SameTables c (c.choose step).2 := by
  unfold choose
  split <;> exact ⟨rfl, rfl, rfl, rfl⟩

theorem sameTables_cycle (c : Console) (reverse : Bool) : SameTables c (c.cycle reverse).2 := by
  have hstep : ∀ d, SameTables c d → SameTables c { d with lastCompleted := some d.line.text } :=
    fun d hd => ⟨hd.commands, hd.vars, hd.aliases, hd.changes⟩
  unfold cycle
  refine hstep _ ?_
  split
  · exact sameTables_choose c _
  · exact sameTables_complete c _ _ _

/-- **All operations but the writing ones leave the tables and the queue of changes.** -/
theorem sameTables_perform {o : Operation} (ho : o.isWrite = false) (c : Console) :
    SameTables c (c.perform o).2 := by
  cases o with
  | print level message => exact sameTables_print c level message
  | complete part display auto => exact sameTables_complete c part display auto
  | choose step => exact sameTables_choose c step
  | cycle reverse => exact sameTables_cycle c reverse
  | display | note | takePiped | setEcho | setSink | requestClear | takeOutput | takeClear | edit
  | startRecording | stopRecording => exact ⟨rfl, rfl, rfl, rfl⟩
  | recallLine back =>
    simp only [perform, recallLine]
    split <;> exact ⟨rfl, rfl, rfl, rfl⟩
  | writeScript path =>
    simp only [perform, writeScript]
    split <;> exact ⟨rfl, rfl, rfl, rfl⟩
  | saveConfig path mode =>
    simp only [perform, saveConfig]
    split <;> exact ⟨rfl, rfl, rfl, rfl⟩
  | _ => cases ho

/-! ### Operations that write -/

/-- What is done with a name is done only if no other table has it. -/
theorem withName_cases {α : Type} (c : Console) (name : String) (kind : EntryKind)
    (act : Except ConsoleError α × Console) :
    SameTables c (c.withName name kind act).2 ∨
      c.takenBy name kind = none ∧ (c.withName name kind act).2 = act.2 := by
  unfold withName
  cases h : c.takenBy name kind with
  | some owner => exact .inl ⟨rfl, rfl, rfl, rfl⟩
  | none => exact .inr ⟨rfl, rfl⟩

/-- A free name is in no other table. -/
theorem free_of_takenBy {c : Console} {name : String} {kind : EntryKind}
    (h : c.takenBy name kind = none) :
    (kind ≠ .command → c.commands.contains name = false) ∧
      (kind ≠ .variable → c.vars.contains name = false) ∧
        (kind ≠ .alias → c.aliases.contains name = false) := by
  unfold takenBy at h
  cases hcommands : c.commands.contains name <;> cases hvars : c.vars.contains name <;>
    cases haliases : c.aliases.contains name <;> cases kind <;> simp_all

/-- Loading assigns to variables. -/
theorem takeLoaded_cases (c : Console) (r : Except ConsoleError Config.Loaded) :
    SameTables c (c.takeLoaded r).2 ∨
      ∃ l, r = .ok l ∧ SameTables { c with vars := l.store } (c.takeLoaded r).2 := by
  cases r with
  | error e => exact .inl ⟨rfl, rfl, rfl, rfl⟩
  | ok l =>
    rw [takeLoaded_ok]
    exact .inr ⟨l, rfl, rfl, rfl, rfl, rfl⟩

/-- **Loading never does more than assign.** If the text ends in an open token or comment, loading
fails with the line on which that starts, and the console stays as it is. Otherwise it succeeds, and
all that it does to the store is to assign the values of tokens to the variables whose names stand
right before them; besides the store only the log has grown. -/
theorem loadText_onlyAssigns (c : Console) (text path : String) :
    (∃ e, Config.tokens text = .error e ∧
      c.loadText text path = (.error (.malformed path e.line e.message), c)) ∨
    ∃ ts n s records, Config.tokens text = .ok ts ∧
      c.loadText text path = (.ok n, { c with vars := s, log := c.log ++ records }) ∧
      Config.OnlyAssigns c.vars ts n s := by
  unfold loadText Config.load
  cases Config.tokens text with
  | error e => exact .inl ⟨e, rfl, rfl⟩
  | ok ts =>
    have htaken := c.takeLoaded_ok (Config.assign { store := c.vars } ts)
    exact .inr ⟨ts, _, _, _, rfl, htaken, Config.onlyAssigns_assign c.vars ts⟩

end Console

end DevConsole
