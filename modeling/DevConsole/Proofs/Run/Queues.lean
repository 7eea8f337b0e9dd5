import DevConsole.Proofs.Run.Printing
import DevConsole.Proofs.Run.Tables

/-!
# The queues of a run

A message that is printed outside of captures or put on the display directly goes to the end of the
output, and the change of an assignment to the end of the changes; the log only grows. So a run that
takes nothing from the output and the changes adds to them just what is said of its moments, each
once and in order (`adds_law`). What a printed message leaves in the log has the target of the
console's output (`mirrored_perform`), and records of this target are never shown.
-/

namespace DevConsole

/-- The operation takes from the output or the changes. -/
def Operation.drains : Operation → Bool
  | .takeOutput | .takeChanges => true
  | _ => false

/-- The output or the changes are taken. -/
def Act.drains : Act → Bool
  | .operation o => o.drains
  | .execute _ => false

namespace Console

/-! ### What operations add -/

/-- The change that an assignment makes, if it is allowed. -/
def assigned (c : Console) (name value : String) : List Change :=
  match c.vars.get? name with
  | none => []
  | some v =>
    if v.flags.has .system then []
    else if v.flags.has .cheat && c.vars.int cheatsName == 0 then []
    else [⟨v.name, v.views.string, (c.setVariable v.name (.text value)).2.vars.string v.name⟩]

/-- The changes that an operation makes for all to know. -/
def changed (c : Console) : Operation → List Change
  | .assign name value => c.assigned name value
  | _ => []

theorem changes_assign (c : Console) (name value : String) :
    (c.assign name value).2.changes = c.changes ++ c.assigned name value := by
  have hprint (d : Console) (level : Level) (message : String) :
      (d.print level message).changes = d.changes ++ [] := by
    rw [(sameTables_print d level message).changes, List.append_nil]
  unfold assign assigned
  cases c.vars.get? name with
  | none => exact hprint c _ _
  | some v =>
    dsimp only
    cases v.flags.has .system with
    | true => exact hprint c _ _
    | false =>
      cases v.flags.has .cheat && c.vars.int cheatsName == 0 with
      | true => exact hprint c _ _
      | false =>
        have hset : (c.setVariable v.name (.text value)).2.changes = c.changes := by
          unfold setVariable
          split <;> rfl
        exact congrArg (· ++ _) ((sameTables_afterWrite _ v.name v.flags).changes.trans hset)

/-! ### Records -/

/-- From the first console to the second, the log got records of the console's output at most. -/
def Mirrored (c d : Console) : Prop :=
  ∃ rs, d.log = c.log ++ rs ∧ ∀ r ∈ rs, r.target = outputTarget

theorem mirrored_of_log {c d : Console} (h : d.log = c.log) : Mirrored c d :=
  ⟨[], by rw [h, List.append_nil], List.forall_mem_nil _⟩

theorem Mirrored.trans {c d e : Console} : Mirrored c d → Mirrored d e → Mirrored c e
  | ⟨_, h, hrs⟩, ⟨_, h', hrs'⟩ =>
    ⟨_, by rw [h', h, List.append_assoc], List.forall_mem_append.mpr ⟨hrs, hrs'⟩⟩

theorem mirrored_print (c : Console) (level : Level) (message : String) :
    Mirrored c (c.print level message) := by
  unfold print
  split
  · exact mirrored_of_log rfl
  · show Mirrored c (c.toSink ⟨level, message⟩)
    unfold toSink
    split
    · exact mirrored_of_log rfl
    · exact ⟨_, rfl, List.forall_mem_singleton.mpr rfl⟩
    · exact mirrored_of_log rfl

theorem mirrored_printing : Printing Mirrored where
  trans := .trans
  print c level message _ := mirrored_print c level message
  besides _ _ _ _ _ _ := mirrored_of_log rfl

/-- **Printed messages leave records of the console's output only.** -/
theorem mirrored_perform {o : Operation} (ho : o.isPrinting = true) (c : Console) :
    Mirrored c (c.perform o).2 :=
  mirrored_printing.perform ho fun _ _ _ => mirrored_print c _ _

/-- From the first console to the second the changes are the same, and the log has only grown. -/
structure Grown (c d : Console) : Prop where
  changes : d.changes = c.changes
  log : c.log <+: d.log

section Grown
variable {c : Console}

theorem grown_refl (c : Console) : Grown c c := ⟨rfl, List.prefix_rfl⟩

theorem grown_note (c : Console) (source : LogSource) (level : LogLevel) (message : String) :
    Grown c (c.note source level message) := ⟨rfl, List.prefix_append _ _⟩

theorem grown_withName {α : Type} {act : Except ConsoleError α × Console} (h : Grown c act.2)
    (name : String) (kind : EntryKind) : Grown c (c.withName name kind act).2 := by
  unfold withName
  split
  · exact grown_note c _ _ _
  · exact h

theorem grown_registerVariable (c : Console) (v : Variable) : Grown c (c.registerVariable v).2 := by
  refine grown_withName ?_ _ _
  cases c.vars.register v with
  | error e => exact grown_refl c
  | ok r =>
    dsimp only
    split
    · exact ⟨rfl, List.prefix_rfl⟩
    · exact ⟨rfl, List.prefix_append _ _⟩

theorem grown_addCommand (c : Console) (k : Command Handler) : Grown c (c.addCommand k).2 := by
  refine grown_withName ?_ _ _
  split <;> exact ⟨rfl, List.prefix_rfl⟩

theorem grown_takeLoaded (c : Console) (r : Except ConsoleError Config.Loaded) :
    Grown c (c.takeLoaded r).2 := by
  cases r with
  | error e => exact grown_refl c
  | ok l =>
    rw [takeLoaded_ok]
    exact ⟨rfl, List.prefix_append _ _⟩

/-- The operations that neither print nor take the changes leave the changes, and the log grows. -/
theorem grown_perform {o : Operation} (hprinting : o.isPrinting = false) (ho : o.drains = false)
    (c : Console) : Grown c (c.perform o).2 := by
  cases o with
  | print | assign | complete | cycle => cases hprinting
  | takeOutput | takeChanges => cases ho
  | note source level message => exact grown_note c source level message
  | registerVariable v => exact grown_registerVariable c v
  | loadConfig path => exact grown_takeLoaded c _
  | loadText text path => exact grown_takeLoaded c _
  | display | takePiped | setEcho | setSink | requestClear | takeClear | edit | startRecording
  | stopRecording => exact ⟨rfl, List.prefix_rfl⟩
  | createVariable name value flags =>
    refine grown_withName ?_ _ _
    split <;> exact ⟨rfl, List.prefix_rfl⟩
  | setAlias name value =>
    refine grown_withName ?_ _ _
    split <;> exact ⟨rfl, List.prefix_rfl⟩
  | unregisterVariable h =>
    simp only [perform, unregisterVariable]
    split <;> exact ⟨rfl, List.prefix_rfl⟩
  | setVariable name value =>
    simp only [perform, setVariable]
    split <;> exact ⟨rfl, List.prefix_rfl⟩
  | resetVariable name =>
    simp only [perform, resetVariable]
    split <;> exact ⟨rfl, List.prefix_rfl⟩
  | removeAlias name =>
    simp only [perform, removeAlias]
    split <;> exact ⟨rfl, List.prefix_rfl⟩
  | removeCommand name =>
    simp only [perform, removeCommand]
    split <;> exact ⟨rfl, List.prefix_rfl⟩
  | recallLine back =>
    simp only [perform, recallLine]
    split <;> exact ⟨rfl, List.prefix_rfl⟩
  | choose step =>
    simp only [perform, choose]
    split <;> exact ⟨rfl, List.prefix_rfl⟩
  | writeScript path =>
    simp only [perform, writeScript]
    split
    · exact ⟨rfl, List.prefix_rfl⟩
    · exact ⟨rfl, List.prefix_append _ _⟩
  | saveConfig path mode =>
    simp only [perform, saveConfig]
    split
    · exact ⟨rfl, List.prefix_rfl⟩
    · exact ⟨rfl, List.prefix_append _ _⟩

end Grown

/-! ### Operations -/

/-- From the first console to the second, the lines were added to the output and the changes to the
changes, and the log has only grown. -/
structure Added (c : Console) (lines : List OutputLine) (changes : List Change) (d : Console) :
    Prop where
  output : d.output = c.output ++ lines
  changes : d.changes = c.changes ++ changes
  log : c.log <+: d.log

section Added
variable {c d e : Console} {lines lines' : List OutputLine} {changes changes' : List Change}

theorem Added.trans (h : Added c lines changes d) (h' : Added d lines' changes' e) :
    Added c (lines ++ lines') (changes ++ changes') e where
  output := by rw [h'.output, h.output, List.append_assoc]
  changes := by rw [h'.changes, h.changes, List.append_assoc]
  log := h.log.trans h'.log

theorem added_nil (houtput : d.output = c.output) (hgrown : Grown c d) : Added c [] [] d where
  output := by rw [houtput, List.append_nil]
  changes := by rw [hgrown.changes, List.append_nil]
  log := hgrown.log

/-- **An operation adds what is said of it**, unless it takes from the queues. -/
theorem added_perform {o : Operation} (ho : o.drains = false) (c : Console) :
    Added c (c.shown o) (c.changed o) (c.perform o).2 := by
  have houtput : (c.perform o).2.output = c.output ++ c.shown o := by
    have hdrained : c.drained o = [] := by
      cases o with
      | takeOutput => cases ho
      | _ => rfl
    rw [(course_perform c o).output, hdrained, List.nil_append]
  cases hprinting : o.isPrinting with
  | false =>
    obtain ⟨hchanges, hlog⟩ := grown_perform hprinting ho c
    refine ⟨houtput, ?_, hlog⟩
    have hnone : c.changed o = [] := by
      cases o with
      | assign => cases hprinting
      | _ => rfl
    rw [hchanges, hnone, List.append_nil]
  | true =>
    obtain ⟨rs, hlog, -⟩ := mirrored_perform hprinting c
    refine ⟨houtput, ?_, hlog ▸ List.prefix_append _ _⟩
    cases o with
    | assign name value => exact changes_assign c name value
    | print | complete | cycle =>
      exact (sameTables_perform rfl c).changes.trans (List.append_nil _).symm
    | _ => cases hprinting

end Added

end Console

/-! ### Runs -/

namespace Moment

/-- The changes that are made at the moment. -/
def changed (m : Moment) : List Change :=
  match m.act with
  | .operation o => m.console.changed o
  | .execute _ => []

end Moment

/-- The changes that a run makes. -/
def changedIn (ms : List Moment) : List Change := ms.flatMap (·.changed)

@[simp] theorem shownIn_nil : shownIn [] = [] := rfl

@[simp] theorem changedIn_nil : changedIn [] = [] := rfl

namespace Console

/-- Unless the run takes from the queues, it adds to them what its moments say. -/
def Adds (c : Console) (x : Watched Console) : Prop :=
  (∀ m ∈ x.moments, m.act.drains = false) →
    ∀ d, x.result = some d → Added c (shownIn x.moments) (changedIn x.moments) d

section Adds
variable {c d : Console}

theorem adds_done (houtput : d.output = c.output) (hgrown : Grown c d) : Adds c (.done d) := by
  intro _ e he
  obtain rfl : d = e := Option.some.inj he
  exact added_nil houtput hgrown

theorem adds_same (houtput : d.output = c.output) (hchanges : d.changes = c.changes)
    (hlog : d.log = c.log) : Adds c (.done d) :=
  adds_done houtput ⟨hchanges, hlog ▸ List.prefix_rfl⟩

/-- A scope that leaves the queues and the log as they are when it is entered and left. -/
theorem Adds.inside {x : Watched Console} {s : Scope} {f : Console → Console} (hx : Adds d x)
    (hd : d.output = c.output ∧ d.changes = c.changes ∧ d.log = c.log)
    (hf : ∀ e, (f e).output = e.output ∧ (f e).changes = e.changes ∧ (f e).log = e.log) :
    Adds c ((x.within s).map f) := by
  intro hdrains e he
  obtain ⟨e, hxe, rfl⟩ := Option.map_eq_some_iff.mp he
  have hadded := hx (fun m hm => hdrains (m.inside s) (List.mem_map_of_mem hm)) e hxe
  have hchanged : changedIn (x.moments.map (·.inside s)) = changedIn x.moments :=
    List.flatMap_map ..
  rw [Watched.moments_map, Watched.moments_within, shownIn_inside, hchanged]
  obtain ⟨houtput, hchanges, hlog⟩ := hd
  obtain ⟨houtput', hchanges', hlog'⟩ := hf e
  exact ⟨by rw [houtput', hadded.output, houtput], by rw [hchanges', hadded.changes, hchanges],
    by rw [hlog', ← hlog]; exact hadded.log⟩

end Adds

/-- **A run adds to the queues what its moments say**, if it takes nothing from them. -/
theorem adds_law : Law Adds where
  done c := adds_same rfl rfl rfl
  stuck c _ d hd := by cases hd
  bind c x f hx hf hdrains e he := by
    obtain ⟨d, hd, he⟩ := Watched.result_bind_eq_some.mp he
    rw [Watched.moments_bind_of_some hd] at hdrains ⊢
    obtain ⟨hfirst, hsecond⟩ := List.forall_mem_append.mp hdrains
    rw [shownIn, List.flatMap_append, changedIn, List.flatMap_append]
    exact (hx hfirst d hd).trans (hf d hd hsecond e he)
  operation c o hdrains d hd := by
    obtain rfl : (c.perform o).2 = d := Option.some.inj hd
    have ho : o.drains = false := hdrains _ List.mem_cons_self
    have hadded := added_perform ho c
    simpa [watchOperation, shownIn, changedIn, Moment.shown, Moment.changed] using hadded
  call c line _ d hd := by
    obtain rfl : c = d := Option.some.inj hd
    exact added_nil rfl (grown_refl c)
  addCommand c k := adds_done (same_addCommand c k).output (grown_addCommand c k)
  takeLine c := adds_same rfl rfl rfl
  record c text recorder _ := adds_same rfl rfl rfl
  piped c piped := adds_same rfl rfl rfl
  submission c line x _ hx := hx.inside ⟨rfl, rfl, rfl⟩ fun _ => ⟨rfl, rfl, rfl⟩
  producer c x hx := hx.inside ⟨rfl, rfl, rfl⟩ fun _ => ⟨rfl, rfl, rfl⟩
  expansion c x _ hx := hx.inside ⟨rfl, rfl, rfl⟩ fun e => by split <;> exact ⟨rfl, rfl, rfl⟩
  script c x _ hx := hx.inside ⟨rfl, rfl, rfl⟩ fun _ => ⟨rfl, rfl, rfl⟩

end Console

end DevConsole
