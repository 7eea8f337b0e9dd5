import DevConsole.Proofs.Run.Obeying
import DevConsole.Proofs.Table.Names

/-!
# What runs do to variables

Careful handlers change variables by assignments, which go by the flags and queue a change each. So
the changes that a run has queued tell all that it did to the variables that were there: for each
variable they lead in a chain from its text before the run to its text after it, system variables
have none, and one of a cheat variable was queued only while cheats were allowed (`careful_writes`).
-/

namespace DevConsole

namespace Change

/-- Each change starts from where the one before it has ended. -/
def Chain : String → List Change → String → Prop
  | start, [], stop => start = stop
  | start, e :: es, stop => e.old = start ∧ Chain e.new es stop

theorem Chain.append : ∀ {es es' : List Change} {a b c : String}, Chain a es b → Chain b es' c →
    Chain a (es ++ es') c
  | [], _, _, _, _, rfl, h' => h'
  | _ :: _, _, _, _, _, ⟨hold, h⟩, h' => ⟨hold, h.append h'⟩

/-- The changes of the variable with the name. -/
def named (name : String) (es : List Change) : List Change :=
  es.filter fun e => Text.sameName e.name name

theorem named_singleton_of_sameName {changed name old new : String}
    (h : Text.sameName changed name = true) :
    named name [⟨changed, old, new⟩] = [⟨changed, old, new⟩] := by
  simp [named, h]

theorem named_singleton_of_ne {changed name old new : String}
    (h : Text.sameName changed name = false) : named name [⟨changed, old, new⟩] = [] := by
  simp [named, h]

end Change

/-- The second variable is what the changes made of the first. -/
structure Variable.Changed (v : Variable) (es : List Change) (w : Variable) : Prop where
  /-- Nothing but the value is another. -/
  same : w = { v with views := w.views }
  chain : Change.Chain v.views.string es w.views.string
  quiet : es = [] → w.views = v.views
  system : v.flags.has .system = true → w.views = v.views

theorem Variable.changed_refl (v : Variable) : v.Changed [] v := ⟨rfl, rfl, fun _ => rfl, fun _ => rfl⟩

theorem Variable.Changed.trans {v w u : Variable} {es es' : List Change} (h : v.Changed es w)
    (h' : w.Changed es' u) : v.Changed (es ++ es') u := by
  have hflags : w.flags = v.flags := by rw [h.same]
  refine ⟨?_, h.chain.append h'.chain, fun hnil => ?_, fun hsystem => ?_⟩
  · rw [h'.same, h.same]
  · obtain ⟨hes, hes'⟩ := List.append_eq_nil_iff.mp hnil
    exact (h'.quiet hes').trans (h.quiet hes)
  · exact (h'.system (hflags ▸ hsystem)).trans (h.system hsystem)

/-! ### Changes at moments -/

namespace Console

/-- Between the consoles changes of cheat variables are queued only while cheats are allowed: before
them, and after them too unless it is this permission that is changed. -/
def KeepsCheats (c : Console) (es : List Change) (d : Console) : Prop :=
  ∀ e ∈ es, ∀ v ∈ c.vars.toList, Text.sameName v.name e.name = true → v.flags.has .cheat = true →
    c.vars.int cheatsName ≠ 0 ∧
      (Text.sameName cheatsName e.name = false → d.vars.int cheatsName ≠ 0)

end Console

namespace Moment

/-- The console just after. -/
def after (m : Moment) : Console :=
  match m.act with
  | .operation o => (m.console.perform o).2
  | .execute _ => m.console

/-- The changes that are queued at the moment. -/
def queued (m : Moment) : List Change := m.after.changes.drop m.console.changes.length

end Moment

namespace Console

/-- The changes that are queued at the moments, in order. -/
def queuedIn (ms : List Moment) : List Change := ms.flatMap (·.queued)

theorem queuedIn_append (ms ms' : List Moment) :
    queuedIn (ms ++ ms') = queuedIn ms ++ queuedIn ms' := List.flatMap_append

theorem queuedIn_singleton (m : Moment) : queuedIn [m] = m.queued := List.append_nil _

theorem queuedIn_inside (s : Scope) (ms : List Moment) :
    queuedIn (ms.map (·.inside s)) = queuedIn ms := List.flatMap_map ..

/-- What queued the changes made the second console of the first. -/
structure Wrote (c : Console) (es : List Change) (d : Console) : Prop where
  sound : d.vars.Sound
  changes : d.changes = c.changes ++ es
  vars : ∀ v ∈ c.vars.toList, ∃ w ∈ d.vars.toList, v.Changed (Change.named v.name es) w

section Wrote
variable {c d e : Console} {es es' : List Change}

theorem wrote_of_same (hs : c.vars.Sound) (hvars : d.vars = c.vars)
    (hchanges : d.changes = c.changes) : Wrote c [] d where
  sound := hvars ▸ hs
  changes := by rw [hchanges, List.append_nil]
  vars v hv := ⟨v, hvars ▸ hv, v.changed_refl⟩

theorem Wrote.trans (h : Wrote c es d) (h' : Wrote d es' e) : Wrote c (es ++ es') e where
  sound := h'.sound
  changes := by rw [h'.changes, h.changes, List.append_assoc]
  vars v hv := by
    obtain ⟨w, hw, hvw⟩ := h.vars v hv
    obtain ⟨u, hu, hwu⟩ := h'.vars w hw
    have hname : w.name = v.name := by rw [hvw.same]
    rw [hname] at hwu
    refine ⟨u, hu, ?_⟩
    rw [Change.named, List.filter_append]
    exact hvw.trans hwu

theorem Wrote.congr {c' d' : Console} (h : Wrote c es d) (hc : c'.vars = c.vars)
    (hc' : c'.changes = c.changes) (hd : d'.vars = d.vars) (hd' : d'.changes = d.changes) :
    Wrote c' es d' where
  sound := hd ▸ h.sound
  changes := by rw [hd', hc', h.changes]
  vars v hv := by
    obtain ⟨w, hw, hvw⟩ := h.vars v (hc ▸ hv)
    exact ⟨w, hd ▸ hw, hvw⟩

end Wrote

/-! ### Operations -/

section Operations
variable {c : Console}

theorem wrote_createVariable (hs : c.vars.Sound) {name : String} (hfree : c.vars.contains name = false)
    (value : Value) (flags : Flags) : Wrote c [] (c.createVariable name value flags).2 := by
  rcases withName_cases c name .variable _ with hsame | ⟨-, heq⟩
  · exact wrote_of_same hs hsame.vars hsame.changes
  · unfold createVariable
    rw [heq]
    cases hcreate : c.vars.create name value flags with
    | error e => exact wrote_of_same hs rfl rfl
    | ok s =>
      have hsound := hs.create hcreate
      rcases Variables.create_eq_ok hcreate with hset | ⟨-, -, rfl⟩
      · rw [Variables.contains_of_set? hset] at hfree
        cases hfree
      · exact ⟨hsound, (List.append_nil _).symm, fun v hv =>
          ⟨v, List.mem_cons_of_mem _ hv, v.changed_refl⟩⟩

/-- An assignment is refused, or it sets the variable with the name, which its flags allow, and queues
one change. -/
theorem assign_cases (hs : c.vars.Sound) (name value : String) :
    SameTables c (c.assign name value).2 ∨
      ∃ v ∈ c.vars.toList, v.flags.has .system = false ∧
        (v.flags.has .cheat = true → c.vars.int cheatsName ≠ 0) ∧
        ∃ s, c.vars.set? v.name (.text value) = some s ∧ (c.assign name value).2.vars = s ∧
          (c.assign name value).2.changes =
            c.changes ++ [⟨v.name, v.views.string, s.string v.name⟩] := by
  unfold assign
  cases hget : c.vars.get? name with
  | none => exact .inl (sameTables_print c _ _)
  | some v =>
    have hv : v ∈ c.vars.toList := (hs.registry.get?_eq_some_iff.mp hget).1
    obtain ⟨s, hset, -⟩ :=
      hs.set?_eq (hs.contains_iff.mpr ⟨v, hv, Text.sameName_self _⟩) (.text value)
    dsimp only
    cases hsystem : v.flags.has .system with
    | true => exact .inl (sameTables_print c _ _)
    | false =>
      rw [if_neg Bool.false_ne_true]
      by_cases hcheat : (v.flags.has .cheat && c.vars.int cheatsName == 0) = true
      · rw [if_pos hcheat]
        exact .inl (sameTables_print c _ _)
      · rw [if_neg hcheat]
        have hstored : (c.setVariable v.name (.text value)).2 = { c with vars := s } := by
          rw [setVariable, hset]
        have hafter := sameTables_afterWrite { c with vars := s } v.name v.flags
        rw [hstored]
        refine .inr ⟨v, hv, hsystem, fun hc h0 => hcheat ?_, s, hset, hafter.vars, ?_⟩
        · rw [hc, h0]
          rfl
        · exact congrArg (· ++ _) hafter.changes

/-- Setting a variable that is no system variable, with one change that tells of it. -/
theorem wrote_set (hs : c.vars.Sound) {v : Variable} (hv : v ∈ c.vars.toList)
    (hsystem : v.flags.has .system = false) {value : String} {s : Variables}
    (hset : c.vars.set? v.name (.text value) = some s) {d : Console} (hvars : d.vars = s)
    (hchanges : d.changes = c.changes ++ [⟨v.name, v.views.string, s.string v.name⟩]) :
    Wrote c [⟨v.name, v.views.string, s.string v.name⟩] d := by
  obtain ⟨t, ht, hsound, -, -, hlist⟩ := hs.set?_eq (Variables.contains_of_set? hset) (.text value)
  obtain rfl : s = t := Option.some.inj (hset.symm.trans ht)
  refine ⟨hvars ▸ hsound, hchanges, fun u hu => ?_⟩
  have hmem : Registry.onName v.name (·.set (.text value)) u ∈ s.toList := by
    rw [hlist]
    exact List.mem_map_of_mem hu
  refine ⟨Registry.onName v.name (·.set (.text value)) u, hvars ▸ hmem, ?_⟩
  cases hsame : Text.sameName v.name u.name with
  | true =>
    obtain rfl := hs.eq_of_sameName hv hu hsame
    have hu' : Registry.onName v.name (·.set (.text value)) v = v.set (.text value) :=
      if_pos (Text.sameName_self _)
    rw [hu'] at hmem ⊢
    rw [Change.named_singleton_of_sameName hsame]
    refine ⟨rfl, ⟨rfl, ?_⟩, nofun, fun h => ?_⟩
    · exact hsound.string_eq hmem
    · rw [hsystem] at h
      cases h
  | false =>
    have hdiff : ¬ Text.sameName u.name v.name = true :=
      Bool.eq_false_iff.mp (Registry.distinct_symm hsame)
    have hu' : Registry.onName v.name (·.set (.text value)) u = u := if_neg hdiff
    rw [hu', Change.named_singleton_of_ne hsame]
    exact u.changed_refl

/-- **What a careful operation queues tells what it does to variables**, and it keeps to the
permission to cheat. -/
theorem wrote_perform (hs : c.vars.Sound) {o : Operation} (hcareful : o.Careful c.snapshot)
    (hload : ∀ path, o ≠ .loadConfig path) :
    ∃ es, Wrote c es (c.perform o).2 ∧ KeepsCheats c es (c.perform o).2 := by
  have hquiet : Wrote c [] (c.perform o).2 →
      ∃ es, Wrote c es (c.perform o).2 ∧ KeepsCheats c es (c.perform o).2 :=
    fun h => ⟨[], h, List.forall_mem_nil _⟩
  have hsame : ∀ {d}, SameTables c d → Wrote c [] d := fun h => wrote_of_same hs h.vars h.changes
  cases hwrite : o.isWrite with
  | false => exact hquiet (hsame (sameTables_perform hwrite c))
  | true =>
    cases o with
    | createVariable name value flags => exact hquiet (wrote_createVariable hs hcareful value flags)
    | assign name value =>
      rcases assign_cases hs name value with h | ⟨v, hv, hsystem, hcheat, s, hset, hvars, hchanges⟩
      · exact hquiet (hsame h)
      · refine ⟨_, wrote_set hs hv hsystem hset hvars hchanges, fun e he u hu hname hu' => ?_⟩
        obtain rfl := List.mem_singleton.mp he
        obtain rfl : u = v := hs.eq_of_sameName hu hv hname
        refine ⟨hcheat hu', fun hother => ?_⟩
        show (c.assign name value).2.vars.int cheatsName ≠ 0
        rw [hvars, Variables.int, hs.get?_set? hset hother]
        exact hcheat hu'
    | setAlias name value =>
      refine hquiet ?_
      rcases withName_cases c name .alias _ with h | ⟨-, heq⟩
      · exact hsame h
      · simp only [perform, setAlias]
        rw [heq]
        split <;> exact wrote_of_same hs rfl rfl
    | removeAlias name =>
      refine hquiet ?_
      simp only [perform, removeAlias]
      split <;> exact wrote_of_same hs rfl rfl
    | removeCommand name =>
      refine hquiet ?_
      simp only [perform, removeCommand]
      split <;> exact wrote_of_same hs rfl rfl
    | loadConfig path => exact absurd rfl (hload path)
    | registerVariable | unregisterVariable | setVariable | resetVariable | loadText
    | takeChanges => exact hcareful.elim
    | _ => cases hwrite

end Operations

/-! ### Runs -/

/-- What happens at the moment is careful, and no config file is loaded. -/
def CarefulAt (m : Moment) : Prop :=
  ∀ o, m.act = .operation o → o.Careful m.console.snapshot ∧ ∀ path, o ≠ .loadConfig path

/-- The variables of the first console are still there in the second one, but for their values. -/
def Lasts (c d : Console) : Prop :=
  ∀ v ∈ c.vars.toList, ∃ w ∈ d.vars.toList, w = { v with views := w.views }

/-- If all moments are careful, the changes that the run queues tell what it does to variables. -/
def Logs (c : Console) (x : Watched Console) : Prop :=
  c.vars.Sound → (∀ m ∈ x.moments, CarefulAt m) →
    (∀ m ∈ x.moments, Lasts c m.console ∧ KeepsCheats m.console m.queued m.after) ∧
      ∀ d, x.result = some d → Wrote c (queuedIn x.moments) d

section Logs
variable {c d e : Console}

theorem lasts_of_vars (h : d.vars = c.vars) : Lasts c d := fun v hv => ⟨v, h ▸ hv, rfl⟩

theorem Wrote.lasts {es : List Change} (h : Wrote c es d) : Lasts c d := by
  intro v hv
  obtain ⟨w, hw, hvw⟩ := h.vars v hv
  exact ⟨w, hw, hvw.same⟩

theorem Lasts.trans (h : Lasts c d) (h' : Lasts d e) : Lasts c e := by
  intro v hv
  obtain ⟨w, hw, hvw⟩ := h v hv
  obtain ⟨u, hu, hwu⟩ := h' w hw
  exact ⟨u, hu, by rw [hwu, hvw]⟩

theorem logs_done (hvars : d.vars = c.vars) (hchanges : d.changes = c.changes) :
    Logs c (.done d) := by
  intro hs _
  refine ⟨fun m hm => by simp at hm, fun e he => ?_⟩
  obtain rfl : d = e := Option.some.inj he
  exact wrote_of_same hs hvars hchanges

/-- A moment on the console itself. -/
theorem logs_moment {m : Moment} (h : m.console.vars.Sound → CarefulAt m →
    Wrote m.console m.queued m.after ∧ KeepsCheats m.console m.queued m.after) :
    Logs m.console ⟨[m], some m.after⟩ := by
  intro hs hcareful
  obtain ⟨hwrote, hcheats⟩ := h hs (hcareful m List.mem_cons_self)
  refine ⟨fun n hn => ?_, fun d hd => ?_⟩
  · obtain rfl := List.mem_singleton.mp hn
    exact ⟨lasts_of_vars rfl, hcheats⟩
  · obtain rfl : m.after = d := Option.some.inj hd
    show Wrote m.console (queuedIn [m]) m.after
    rw [queuedIn_singleton]
    exact hwrote

/-- A scope that leaves the variables and the queue as they are when it is entered and left. -/
theorem Logs.inside {x : Watched Console} {s : Scope} {f : Console → Console} (hx : Logs d x)
    (hvars : d.vars = c.vars) (hchanges : d.changes = c.changes)
    (hf : ∀ e, (f e).vars = e.vars ∧ (f e).changes = e.changes) :
    Logs c ((x.within s).map f) := by
  intro hs hcareful
  obtain ⟨hmoments, hresult⟩ := hx (hvars ▸ hs)
    fun m hm => hcareful (m.inside s) (List.mem_map_of_mem hm)
  refine ⟨fun m hm => ?_, fun e he => ?_⟩
  · obtain ⟨n, hn, rfl⟩ := List.mem_map.mp hm
    obtain ⟨hlasts, hcheats⟩ := hmoments n hn
    exact ⟨(lasts_of_vars hvars).trans hlasts, hcheats⟩
  · obtain ⟨e, hxe, rfl⟩ := Option.map_eq_some_iff.mp he
    rw [Watched.moments_map, Watched.moments_within, queuedIn_inside]
    exact (hresult e hxe).congr hvars.symm hchanges.symm (hf e).1 (hf e).2

/-- **The changes that a run queues tell what it does to variables.** -/
theorem logs_law : Law Logs where
  done c := logs_done rfl rfl
  stuck c _ _ := ⟨fun m hm => by simp at hm, fun d hd => by simp at hd⟩
  bind c x f hx hf hs hcareful := by
    cases hr : x.result with
    | none =>
      rw [Watched.moments_bind_of_none hr] at hcareful ⊢
      exact ⟨(hx hs hcareful).1, fun d hd => by simp [hr] at hd⟩
    | some d =>
      rw [Watched.moments_bind_of_some hr] at hcareful ⊢
      obtain ⟨hmoments, hresult⟩ :=
        hx hs fun m hm => hcareful m (List.mem_append_left _ hm)
      have hd := hresult d hr
      obtain ⟨hmoments', hresult'⟩ :=
        hf d hr hd.sound fun m hm => hcareful m (List.mem_append_right _ hm)
      refine ⟨fun m hm => ?_, fun e he => ?_⟩
      · rcases List.mem_append.mp hm with hm | hm
        · exact hmoments m hm
        · exact ⟨hd.lasts.trans (hmoments' m hm).1, (hmoments' m hm).2⟩
      · rw [Watched.result_bind, hr] at he
        rw [queuedIn_append]
        exact hd.trans (hresult' e he)
  operation c o := logs_moment (m := ⟨[], c, .operation o⟩) fun hs hcareful => by
    obtain ⟨hsafe, hload⟩ := hcareful o rfl
    obtain ⟨es, hwrote, hcheats⟩ := wrote_perform hs hsafe hload
    have hqueued : (Moment.mk [] c (.operation o)).queued = es := by
      show (c.perform o).2.changes.drop c.changes.length = es
      rw [hwrote.changes, List.drop_left]
    rw [hqueued]
    exact ⟨hwrote, hcheats⟩
  call c line := logs_moment (m := ⟨[], c, .execute line⟩) fun hs _ => by
    have hqueued : (Moment.mk [] c (.execute line)).queued = [] := List.drop_length
    rw [hqueued]
    exact ⟨wrote_of_same hs rfl rfl, List.forall_mem_nil _⟩
  addCommand c k := by
    unfold addCommand
    rcases withName_cases c k.name .command _ with h | ⟨-, heq⟩
    · exact logs_done h.vars h.changes
    · rw [heq]
      split <;> exact logs_done rfl rfl
  takeLine c := logs_done rfl rfl
  record c text recorder _ := logs_done rfl rfl
  piped c piped := logs_done rfl rfl
  submission c line x _ hx := hx.inside rfl rfl fun e => ⟨rfl, rfl⟩
  producer c x hx := hx.inside rfl rfl fun e => ⟨rfl, rfl⟩
  expansion c x _ hx := hx.inside rfl rfl fun e => by
    split <;> exact ⟨rfl, rfl⟩
  script c x _ hx := hx.inside rfl rfl fun e => ⟨rfl, rfl⟩

end Logs

/-- **With careful handlers, and as long as no config file is loaded, assignments obey the flags and
the queue of changes is complete.** The run adds to the queue. Each variable that was there is there
afterwards, but for its value; its changes lead in a chain from its text before to its text after,
and without any its value is the same; the value of a system variable is the same. At each moment the
variables are still there, and changes of cheat variables are queued only while cheats are
allowed. -/
theorem careful_writes (limit : Nat) (e : Entrance) (c d : Console) (hvars : c.vars.Reachable)
    (hobeys : c.Obeys .careful)
    (hload : ∀ m ∈ (e.watched limit c).moments, ∀ path, m.act ≠ .operation (.loadConfig path))
    (hd : e.run limit c = some d) :
    d.changes = c.changes ++ queuedIn (e.watched limit c).moments ∧
    (∀ v ∈ c.vars.toList, ∃ w ∈ d.vars.toList,
      v.Changed (Change.named v.name (queuedIn (e.watched limit c).moments)) w) ∧
    ∀ m ∈ (e.watched limit c).moments,
      Lasts c m.console ∧ KeepsCheats m.console m.queued m.after := by
  have hadmits := ((obeys_law Policy.own_careful).entrance limit c e hobeys).1
  have hcareful : ∀ m ∈ (e.watched limit c).moments, CarefulAt m := fun m hm o ho =>
    ⟨hadmits m hm o ho, fun path hpath => hload m hm path (by rw [ho, hpath])⟩
  obtain ⟨hmoments, hresult⟩ := logs_law.entrance limit c e hvars.sound hcareful
  have hwrote := hresult d ((e.watched_result limit c).trans hd)
  exact ⟨hwrote.changes, hwrote.vars, hmoments⟩

/-- The variable that allows cheats, and one that is a cheat. -/
def godMode : Variables :=
  ((Variables.empty.add Builtin.cheats).store.add (.ofValue "god" (.int 0) (.single .cheat))).store

theorem reachable_godMode : godMode.Reachable :=
  .register (v := .ofValue "god" (.int 0) (.single .cheat))
    (r := (Variables.empty.add Builtin.cheats).store.add (.ofValue "god" (.int 0) (.single .cheat)))
    (.register (v := Builtin.cheats) (r := Variables.empty.add Builtin.cheats) .empty rfl) rfl

/-- Allows cheats while it turns on the cheat. -/
def cheat : Command Handler :=
  ⟨"cheat", none, fun _ =>
    .execute "sv_cheats 1" (.perform (.assign "god" "1") fun _ => .nested "sv_cheats 0" .done)⟩

/-- A console with the cheat and a command for it. -/
def cheating : Console where
  commands := ((new {}).addCommand cheat).2.commands
  vars := godMode

theorem obeys_cheating : cheating.Obeys .careful := by
  have hcheat : ∀ args s, (cheat.handler args).Within .careful s := fun _ _ =>
    .execute trivial fun _ => .perform trivial fun _ _ => .nested trivial fun _ => .done
  have hcommands : cheating.commands = ((new {}).addCommand cheat).2.commands := by rw [cheating]
  intro k hk
  rw [hcommands] at hk
  rcases mem_commands_addCommand hk with rfl | hk
  · exact hcheat
  · exact fun args s => Routine.Within.mono (p := .simple) (q := .careful) (fun _ _ h => h)
      (fun _ => trivial) (Builtin.within_of_mem args s (mem_commands_new {} hk))

/-- The cheat is turned on while cheats are allowed; the line after it is refused. -/
theorem careful_writes_cheating : ∃ d,
    (Entrance.execute "cheat; god 2").run 5 cheating = some d ∧
    d.changes = [⟨"sv_cheats", "0", "1"⟩, ⟨"god", "0", "1"⟩, ⟨"sv_cheats", "1", "0"⟩] ∧
    ∀ v ∈ godMode.toList, v.name = "god" → ∃ w ∈ d.vars.toList, v.Changed [⟨"god", "0", "1"⟩] w := by
  have hsome : ((Entrance.execute "cheat; god 2").run 5 cheating).isSome = true := by
    decide +kernel
  obtain ⟨d, hd⟩ := Option.isSome_iff_exists.mp hsome
  have hload : ((Entrance.execute "cheat; god 2").watched 5 cheating).moments.all (fun m =>
      match m.act with
      | .operation (.loadConfig _) => false
      | _ => true) = true := by
    decide +kernel
  have hqueued : queuedIn ((Entrance.execute "cheat; god 2").watched 5 cheating).moments =
      [⟨"sv_cheats", "0", "1"⟩, ⟨"god", "0", "1"⟩, ⟨"sv_cheats", "1", "0"⟩] := by
    decide +kernel
  obtain ⟨hchanges, hvars, -⟩ := careful_writes 5 (.execute "cheat; god 2") cheating d
    reachable_godMode obeys_cheating (fun m hm path hact => by
      have hm' := List.all_eq_true.mp hload m hm
      rw [hact] at hm'
      cases hm') hd
  rw [hqueued] at hchanges hvars
  refine ⟨d, hd, hchanges, fun v hv hname => ?_⟩
  obtain ⟨w, hw, hvw⟩ := hvars v hv
  rw [hname] at hvw
  exact ⟨w, hw, hvw⟩

end Console

end DevConsole
