import DevConsole.Proofs.Pipeline.Run
import DevConsole.Proofs.Run.Obeying
import DevConsole.Proofs.Run.Setup

/-!
# Runs that differ in the count of expanded aliases

A line is run on two consoles that are alike but for the count of expanded aliases, which is larger
on the first one (`Ahead`). When the outermost alias of the second run has ended, that console falls
back to none, while the first one keeps its count. So the counts drift apart, but the first one stays
ahead: operations do not ask for the count (`perform_withAliasDepth`), an alias that may be expanded
on the first console may be expanded on the second, and the dispatcher keeps the relation in all that
it runs (`mirrors_line`), by induction on the nesting.

What would tell the consoles apart is ruled out: an alias that the first one finds expanded too deep
and a recording, which takes only what is outside of aliases (`Moment.Calm`), echoed statements, and
handlers that ask for the count or run lines of their own (`Routine.Steady`).
-/

namespace DevConsole
namespace Console

/-! ### Operations and the count of expanded aliases -/

section Depth
variable (c : Console) (n : Nat)

theorem toSink_withAliasDepth (l : OutputLine) :
    (c.withAliasDepth n).toSink l = (c.toSink l).withAliasDepth n := by
  have hsink : (c.withAliasDepth n).sink = c.sink := rfl
  unfold toSink
  rw [hsink]
  rcases c.sink with _ | _ | _ <;> rfl

theorem print_withAliasDepth (level : Level) (message : String) :
    (c.withAliasDepth n).print level message = (c.print level message).withAliasDepth n := by
  have hcapture : (c.withAliasDepth n).activity.capture = c.activity.capture := rfl
  unfold print
  rw [toSink_withAliasDepth, hcapture]
  cases c.activity.capture <;> cases level.isCapturable <;> rfl

theorem afterWrite_withAliasDepth (name : String) (flags : Flags) :
    (c.withAliasDepth n).afterWrite name flags = (c.afterWrite name flags).withAliasDepth n := by
  unfold afterWrite
  cases flags.has .latch <;> cases flags.has .debug <;> simp [info, warn, print_withAliasDepth]

theorem setVariable_withAliasDepth (name : String) (value : Value) :
    (c.withAliasDepth n).setVariable name value =
      ((c.setVariable name value).1, (c.setVariable name value).2.withAliasDepth n) := by
  have hvars : (c.withAliasDepth n).vars = c.vars := rfl
  unfold setVariable
  rw [hvars]
  cases c.vars.set? name value <;> rfl

theorem assign_withAliasDepth (name value : String) :
    (c.withAliasDepth n).assign name value =
      ((c.assign name value).1, (c.assign name value).2.withAliasDepth n) := by
  have hvars : (c.withAliasDepth n).vars = c.vars := rfl
  unfold assign
  rw [hvars]
  cases c.vars.get? name with
  | none => exact congrArg (Prod.mk false) (print_withAliasDepth c n _ _)
  | some v =>
    dsimp only
    split
    · exact congrArg (Prod.mk false) (print_withAliasDepth c n _ _)
    · split
      · exact congrArg (Prod.mk false) (print_withAliasDepth c n _ _)
      · rw [setVariable_withAliasDepth]
        dsimp only
        rw [afterWrite_withAliasDepth]
        rfl

theorem withName_withAliasDepth {α : Type} (name : String) (kind : EntryKind)
    (act : Except ConsoleError α × Console) :
    (c.withAliasDepth n).withName name kind (act.1, act.2.withAliasDepth n) =
      ((c.withName name kind act).1, (c.withName name kind act).2.withAliasDepth n) := by
  have htaken : (c.withAliasDepth n).takenBy name kind = c.takenBy name kind := rfl
  unfold withName
  rw [htaken]
  cases c.takenBy name kind <;> rfl

theorem registerVariable_withAliasDepth (v : Variable) :
    (c.withAliasDepth n).registerVariable v =
      ((c.registerVariable v).1, (c.registerVariable v).2.withAliasDepth n) := by
  have hvars : (c.withAliasDepth n).vars = c.vars := rfl
  unfold registerVariable
  rw [hvars, ← withName_withAliasDepth]
  rcases c.vars.register v with _ | ⟨_, _, _ | _⟩ <;> rfl

theorem takeLoaded_withAliasDepth (x : Except ConsoleError Config.Loaded) :
    (c.withAliasDepth n).takeLoaded x =
      ((c.takeLoaded x).1, (c.takeLoaded x).2.withAliasDepth n) := by
  cases x with
  | error e => rfl
  | ok l =>
    rw [takeLoaded_ok, takeLoaded_ok]
    rfl

theorem complete_withAliasDepth (part : String) (display auto : Bool) :
    (c.withAliasDepth n).complete part display auto =
      ((c.complete part display auto).1, (c.complete part display auto).2.withAliasDepth n) := by
  have hall : ∀ (names : List String) (d : Console),
      names.foldl (fun d name => d.print .result ("  " ++ name)) (d.withAliasDepth n) =
        (names.foldl (fun d name => d.print .result ("  " ++ name)) d).withAliasDepth n := by
    intro names
    induction names with
    | nil => exact fun d => rfl
    | cons name names ih =>
      intro d
      rw [List.foldl_cons, print_withAliasDepth, ih]
      rfl
  have hcandidates : candidates (c.withAliasDepth n).commands (c.withAliasDepth n).vars
      (c.withAliasDepth n).aliases = candidates c.commands c.vars c.aliases := rfl
  unfold complete
  rw [hcandidates]
  dsimp only
  generalize candidates c.commands c.vars c.aliases _ = names
  have hprinted : (if display && 1 < names.length then
      names.foldl (fun d name => d.print .result ("  " ++ name)) (c.withAliasDepth n)
        else c.withAliasDepth n) =
      (if display && 1 < names.length then
        names.foldl (fun d name => d.print .result ("  " ++ name)) c else c).withAliasDepth n := by
    split
    · exact hall names c
    · rfl
  rw [hprinted]
  -- from here on it does not matter how the candidates were printed
  generalize (if display && 1 < names.length then
    names.foldl (fun d name => d.print .result ("  " ++ name)) c else c) = d
  split_ifs <;> rfl

theorem choose_withAliasDepth (step : Completion.Step) :
    (c.withAliasDepth n).choose step = ((c.choose step).1, (c.choose step).2.withAliasDepth n) := by
  have hcompletion : (c.withAliasDepth n).completion = c.completion := rfl
  unfold choose
  rw [hcompletion]
  cases c.completion.move? step <;> rfl

theorem cycle_withAliasDepth (reverse : Bool) :
    (c.withAliasDepth n).cycle reverse =
      ((c.cycle reverse).1, (c.cycle reverse).2.withAliasDepth n) := by
  have hline : (c.withAliasDepth n).line = c.line := rfl
  have hgoing : (decide (1 < (c.withAliasDepth n).completion.candidates.length) &&
      (c.withAliasDepth n).lastCompleted == some c.line.text) =
      (decide (1 < c.completion.candidates.length) && c.lastCompleted == some c.line.text) := rfl
  unfold cycle
  rw [choose_withAliasDepth, complete_withAliasDepth, hline, hgoing]
  dsimp only
  split_ifs <;> rfl

/-- **No operation asks how many aliases were expanded.** -/
theorem perform_withAliasDepth (o : Operation) :
    (c.withAliasDepth n).perform o = ((c.perform o).1, (c.perform o).2.withAliasDepth n) := by
  cases o with
  | print level message => exact congrArg (Prod.mk ()) (print_withAliasDepth c n level message)
  | display | note | takePiped | setEcho | setSink | requestClear | takeOutput | takeChanges
  | takeClear | edit | startRecording | stopRecording => rfl
  | registerVariable v => exact registerVariable_withAliasDepth c n v
  | setVariable name value => exact setVariable_withAliasDepth c n name value
  | assign name value => exact assign_withAliasDepth c n name value
  | complete part display auto => exact complete_withAliasDepth c n part display auto
  | choose step => exact choose_withAliasDepth c n step
  | cycle reverse => exact cycle_withAliasDepth c n reverse
  | loadConfig path => exact takeLoaded_withAliasDepth c n _
  | loadText text path => exact takeLoaded_withAliasDepth c n _
  | createVariable name value flags =>
    have hvars : (c.withAliasDepth n).vars = c.vars := rfl
    simp only [perform, createVariable]
    rw [hvars, ← withName_withAliasDepth]
    cases c.vars.create name value flags <;> rfl
  | setAlias name value =>
    have haliases : (c.withAliasDepth n).aliases = c.aliases := rfl
    simp only [perform, setAlias]
    rw [haliases, ← withName_withAliasDepth]
    cases c.aliases.set name value <;> rfl
  | unregisterVariable h =>
    have hvars : (c.withAliasDepth n).vars = c.vars := rfl
    simp only [perform, unregisterVariable]
    rw [hvars]
    cases c.vars.unregister h <;> rfl
  | resetVariable name =>
    have hvars : (c.withAliasDepth n).vars = c.vars := rfl
    simp only [perform, resetVariable]
    rw [hvars]
    cases c.vars.reset? name <;> rfl
  | removeAlias name =>
    have haliases : (c.withAliasDepth n).aliases = c.aliases := rfl
    simp only [perform, removeAlias]
    rw [haliases]
    cases c.aliases.remove? name <;> rfl
  | removeCommand name =>
    have hcommands : (c.withAliasDepth n).commands = c.commands := rfl
    simp only [perform, removeCommand]
    rw [hcommands]
    cases c.commands.remove? name <;> rfl
  | recallLine back =>
    have hhistory : (c.withAliasDepth n).history = c.history := rfl
    simp only [perform, recallLine]
    rw [hhistory]
    cases c.history.get? back <;> rfl
  | writeScript path =>
    have hwrite : Script.write (c.withAliasDepth n).recorder (c.withAliasDepth n).disk path =
      Script.write c.recorder c.disk path := rfl
    simp only [perform, writeScript]
    rw [hwrite]
    cases Script.write c.recorder c.disk path <;> rfl
  | saveConfig path mode =>
    have hsave : Config.save (c.withAliasDepth n).vars (c.withAliasDepth n).disk path mode =
      Config.save c.vars c.disk path mode := rfl
    simp only [perform, saveConfig]
    rw [hsave]
    rcases Config.save c.vars c.disk path mode with ⟨_ | _, _⟩ <;> rfl

end Depth

/-! ### Routines that do not ask for the count -/

end Console

/-- The routine does the same however many aliases were expanded, runs no lines but those of
scripts, adds no commands, leaves the echo as it is, and goes on after it has started a recording. -/
inductive Routine.Steady : Routine → Prop
  | done : Steady .done
  | perform {o : Operation} {next : o.Answer → Routine} : o.isSetup = false ∨ o = .stopRecording →
    (∀ a, Steady (next a)) → Steady (.perform o next)
  | record {o : Operation} {next : o.Answer → Routine} :
    Steady (.perform .startRecording fun _ => .perform o next)
  | inspect {next : Snapshot → Routine} :
    (∀ s n, next { s with aliasDepth := n } = next s) → (∀ s, Steady (next s)) →
    Steady (.inspect next)
  | execFile {path : String} {next : Except ConsoleError Nat → Routine} :
    (∀ a, Steady (next a)) → Steady (.execFile path next)

/-- What is printed in place of an alias that is expanded too deep. -/
def endlessAlias (name : String) : String :=
  "Alias '" ++ name ++ "': potential infinite recursion"

/-- Nothing is being recorded, and no alias is found to be expanded too deep. -/
structure Moment.Calm (m : Moment) : Prop where
  recorder : m.console.recorder.recording = false
  act : ∀ name, m.act ≠ .operation (.print .error (endlessAlias name))

namespace Console

/-! ### Two runs side by side -/

/-- All handlers are steady, nothing is echoed, and nothing is being recorded. -/
structure Muted (c : Console) : Prop where
  steady : ∀ k ∈ c.commands.toList, ∀ args, (k.handler args).Steady
  echo : c.settings.echo = false
  recording : c.recorder.recording = false

/-- The consoles differ in the count of expanded aliases alone, and the first one is ahead. -/
structure Ahead (c d : Console) : Prop where
  muted : c.Muted
  behind : ∃ n < c.activity.aliasDepth, d = c.withAliasDepth n

/-- If all moments of the first run are calm and it ends, the second one ends too, with a related
result. -/
def Mirrors {α : Type} (R : α → α → Prop) (x : Watched α) (y : Option α) : Prop :=
  (∀ m ∈ x.moments, m.Calm) → ∀ a, x.result = some a → ∃ b, y = some b ∧ R a b

/-- The same answers, on consoles of which the first is ahead. -/
def AheadWith {α : Type} (p q : α × Console) : Prop := q.1 = p.1 ∧ Ahead p.2 q.2

section Mirrors
variable {α β : Type} {R : α → α → Prop} {S : β → β → Prop} {x : Watched α} {y : Option α}

theorem mirrors_done {a b : α} (h : R a b) : Mirrors R (.done a) (some b) := by
  intro _ a' ha
  obtain rfl : a = a' := Option.some.inj ha
  exact ⟨b, rfl, h⟩

theorem mirrors_stuck : Mirrors R .stuck y := by
  intro _ a ha
  cases ha

theorem Mirrors.bind (hx : Mirrors R x y) {f : α → Watched β} {g : α → Option β}
    (hf : ∀ a b, R a b → Mirrors S (f a) (g b)) : Mirrors S (x.bind f) (y.bind g) := by
  intro hcalm b hb
  obtain ⟨a, ha, hb⟩ := Watched.result_bind_eq_some.mp hb
  obtain ⟨a', ha', hR⟩ := hx (fun m hm => hcalm m (Watched.mem_moments_bind.mpr (.inl hm))) a ha
  rw [ha']
  exact hf a a' hR (fun m hm => hcalm m (Watched.mem_moments_bind.mpr (.inr ⟨a, ha, hm⟩))) b hb

theorem Mirrors.map (hx : Mirrors R x y) {f g : α → β} (h : ∀ a b, R a b → S (f a) (g b)) :
    Mirrors S (x.map f) (y.map g) := by
  intro hcalm b hb
  obtain ⟨a, ha, rfl⟩ := Option.map_eq_some_iff.mp hb
  obtain ⟨a', rfl, hR⟩ := hx hcalm a ha
  exact ⟨g a', rfl, h a a' hR⟩

theorem Mirrors.within (hx : Mirrors R x y) (s : Scope) : Mirrors R (x.within s) y := by
  intro hcalm a ha
  refine hx (fun m hm => ?_) a ha
  obtain ⟨hrecorder, hact⟩ := hcalm (m.inside s) (List.mem_map_of_mem hm)
  exact ⟨hrecorder, hact⟩

end Mirrors

variable {c d : Console}

section Ahead
variable (h : Ahead c d)
include h

theorem Ahead.settings : d.settings = c.settings := by
  obtain ⟨-, n, -, rfl⟩ := h
  rfl

theorem Ahead.recorder : d.recorder = c.recorder := by
  obtain ⟨-, n, -, rfl⟩ := h
  rfl

theorem Ahead.capture : d.activity.capture = c.activity.capture := by
  obtain ⟨-, n, -, rfl⟩ := h
  rfl

theorem Ahead.piped : d.activity.piped = c.activity.piped := by
  obtain ⟨-, n, -, rfl⟩ := h
  rfl

end Ahead

theorem Muted.perform (h : c.Muted) {o : Operation} (ho : o.isSetup = false ∨ o = .stopRecording) :
    (c.perform o).2.Muted := by
  rcases ho with ho | rfl
  · obtain ⟨hsettings, hrecorder⟩ := sameSetup_perform ho c
    exact ⟨fun k hk => h.steady k (mem_commands_perform hk), hsettings ▸ h.echo,
      hrecorder ▸ h.recording⟩
  · exact ⟨h.steady, h.echo, rfl⟩

/-- What the dispatcher changes on the way keeps the first console ahead. -/
theorem Ahead.update (h : Ahead c d) {f : Console → Console} (hf : (f c).Muted)
    (hdepth : (f c).activity.aliasDepth = c.activity.aliasDepth)
    (hcomm : ∀ n, f (c.withAliasDepth n) = (f c).withAliasDepth n) : Ahead (f c) (f d) := by
  obtain ⟨-, n, hn, rfl⟩ := h
  exact ⟨hf, n, hdepth ▸ hn, hcomm n⟩

/-- **An operation answers the same on both consoles.** -/
theorem mirrors_operation (h : Ahead c d) {o : Operation}
    (ho : o.isSetup = false ∨ o = .stopRecording) :
    Mirrors AheadWith (watchOperation o c) (some (d.perform o)) := by
  intro _ p hp
  obtain rfl : c.perform o = p := Option.some.inj hp
  obtain ⟨hc, n, hn, rfl⟩ := h
  refine ⟨_, rfl, ?_, hc.perform ho, n, ?_, ?_⟩
  · rw [perform_withAliasDepth]
  · rw [(abides_perform c o).aliasDepth]
    exact hn
  · rw [perform_withAliasDepth]

/-- An operation on both consoles, and what goes on with its answer. -/
theorem Ahead.bind {β : Type} {S : β → β → Prop} (h : Ahead c d) {o : Operation}
    (ho : o.isSetup = false ∨ o = .stopRecording) {f : o.Answer × Console → Watched β}
    {g : o.Answer × Console → Option β}
    (hfg : ∀ a e e', Ahead e e' → Mirrors S (f (a, e)) (g (a, e'))) :
    Mirrors S ((watchOperation o c).bind f) (g (d.perform o)) := by
  rw [← Option.bind_some (d.perform o) g]
  refine (mirrors_operation h ho).bind fun p q hpq => ?_
  obtain ⟨a, e⟩ := p
  obtain ⟨b, e'⟩ := q
  obtain ⟨hanswer, he⟩ := hpq
  dsimp only at hanswer
  rw [hanswer]
  exact hfg a e e' he

theorem mirrors_print (h : Ahead c d) (level : Level) (message : String) :
    Mirrors Ahead (watchPrint level message c) (some (d.print level message)) :=
  (mirrors_operation h (o := .print level message) (.inl rfl)).map fun _ _ hp => hp.2

theorem Muted.withActivity (h : c.Muted) (activity : Activity) : Muted { c with activity } :=
  ⟨h.steady, h.echo, h.recording⟩

theorem Ahead.withExecDepth (h : Ahead c d) (f : Nat → Nat) :
    Ahead (c.withExecDepth (f c.activity.execDepth)) (d.withExecDepth (f d.activity.execDepth)) :=
  h.update (f := fun e => e.withExecDepth (f e.activity.execDepth)) (h.muted.withActivity _) rfl
    fun _ => rfl

theorem Ahead.withPiped (h : Ahead c d) (piped : Option (List String)) :
    Ahead (c.withPiped piped) (d.withPiped piped) :=
  h.update (f := (·.withPiped piped)) (h.muted.withActivity _) rfl fun _ => rfl

theorem Ahead.withCapture (h : Ahead c d) (capture : Option (List String)) :
    Ahead (c.withCapture capture) (d.withCapture capture) :=
  h.update (f := (·.withCapture capture)) (h.muted.withActivity _) rfl fun _ => rfl

/-- The second console falls back to no expanded aliases. -/
theorem Ahead.fall (h : Ahead c d) : Ahead c (d.withAliasDepth 0) := by
  obtain ⟨hc, n, hn, rfl⟩ := h
  exact ⟨hc, 0, Nat.zero_lt_of_lt hn, rfl⟩

section Dispatch
variable {watch : LineWatcher} {run : LineRunner}
  (h : ∀ line c d, Ahead c d → Mirrors Ahead (watch line c) (run line d))
include h

theorem mirrors_all : ∀ (lines : List String) {c d : Console}, Ahead c d →
    Mirrors Ahead (watchAll watch lines c) (runAll run lines d)
  | [], _, _, hcd => mirrors_done hcd
  | line :: lines, _, _, hcd => (h line _ _ hcd).bind fun _ _ => mirrors_all lines

theorem mirrors_execFile (path : String) (hcd : Ahead c d) :
    Mirrors AheadWith (watchExecFile watch path c) (execFileWith run path d) := by
  have hcd' := hcd
  obtain ⟨hc, n, hn, rfl⟩ := hcd
  have hexec : (c.withAliasDepth n).activity.execDepth = c.activity.execDepth := rfl
  have hdisk : (c.withAliasDepth n).disk = c.disk := rfl
  unfold watchExecFile execFileWith
  rw [hexec, hdisk]
  split
  · exact (mirrors_print hcd' _ _).map fun _ _ he => ⟨rfl, he⟩
  · cases Script.read c.disk path with
    | error e => exact mirrors_done ⟨rfl, hcd'⟩
    | ok lines =>
      refine hcd'.bind (o := .note .dispatcher .debug _) (g := fun q =>
        (runAll run lines (q.2.withExecDepth (q.2.activity.execDepth + 1))).map fun e =>
          (Except.ok lines.length, e.withExecDepth (e.activity.execDepth - 1))) (.inl rfl)
        fun _ e e' he => ?_
      have hstart := he.withExecDepth fun k => k + 1
      exact ((mirrors_all h lines hstart).within .script).map fun e f hef =>
        ⟨rfl, hef.withExecDepth fun k => k - 1⟩

theorem mirrors_routine {r : Routine} (hr : r.Steady) : ∀ {c d : Console}, Ahead c d →
    Mirrors Ahead (watchRoutine watch r c) (runRoutine run r d) := by
  induction hr with
  | done => exact fun hcd => mirrors_done hcd
  | @perform o next ho _ ih =>
    intro c d hcd
    exact hcd.bind (g := fun q => runRoutine run (next q.1) q.2) ho fun a _ _ he => ih a he
  | @record o next =>
    -- the second moment finds the recording on
    intro c d _ hcalm
    have hsecond := hcalm ⟨[], c.startRecording, .operation o⟩ <| Watched.mem_moments_bind.mpr <|
      .inr ⟨_, rfl, Watched.mem_moments_bind.mpr (.inl List.mem_cons_self)⟩
    cases hsecond.recorder
  | @inspect next hsame _ ih =>
    intro c d hcd
    have hsnapshot : next d.snapshot = next c.snapshot := by
      obtain ⟨-, n, -, rfl⟩ := hcd
      exact hsame c.snapshot n
    rw [watchRoutine, runRoutine, hsnapshot]
    exact ih _ hcd
  | execFile _ ih =>
    intro c d hcd
    refine (mirrors_execFile h _ hcd).bind fun p q hpq => ?_
    obtain ⟨a, e⟩ := p
    obtain ⟨b, f⟩ := q
    obtain ⟨hanswer, hef⟩ := hpq
    dsimp only at hanswer ⊢
    rw [hanswer]
    exact ih a hef

theorem mirrors_expansion (name value : String) (args : List String) (hcd : Ahead c d) :
    Mirrors Ahead (watchExpansion watch name value args c) (expandAlias run name value args d) := by
  obtain ⟨hc, n, hn, rfl⟩ := hcd
  unfold watchExpansion expandAlias
  by_cases hdepth : maxAliasDepth ≤ c.activity.aliasDepth
  · rw [if_pos hdepth]
    intro hcalm
    exact absurd rfl ((hcalm _ List.mem_cons_self).act name)
  · have hdepth' : ¬ maxAliasDepth ≤ (c.withAliasDepth n).activity.aliasDepth :=
      fun hle => hdepth (le_trans hle hn.le)
    rw [if_neg hdepth, if_neg hdepth']
    have hstart : Ahead (c.withAliasDepth (c.activity.aliasDepth + 1))
        (c.withAliasDepth (n + 1)) :=
      ⟨hc.withActivity _, n + 1, Nat.succ_lt_succ hn, rfl⟩
    refine ((h _ _ _ hstart).within .expansion).map fun e f hef => ?_
    rw [if_neg (Nat.ne_of_gt (Nat.zero_lt_of_lt hn))]
    split
    · exact hef.fall
    · exact hef

theorem mirrors_command {k : Command Handler} (hk : ∀ args, (k.handler args).Steady) (args : Args)
    (hcd : Ahead c d) :
    Mirrors Ahead (watchCommand watch k args c) (callCommand run k args d) := by
  unfold watchCommand callCommand
  split
  · exact mirrors_print hcd _ _
  · exact mirrors_routine h (hk args) hcd

theorem mirrors_dispatch (head : String) (stage : Stage) (hcd : Ahead c d) :
    Mirrors AheadWith (watchDispatch watch head stage c) (dispatch run head stage d) := by
  have hcd' := hcd
  obtain ⟨hc, n, hn, rfl⟩ := hcd
  have hcommands : (c.withAliasDepth n).commands = c.commands := rfl
  have hvars : (c.withAliasDepth n).vars = c.vars := rfl
  have haliases : (c.withAliasDepth n).aliases = c.aliases := rfl
  unfold watchDispatch dispatch
  rw [hcommands, hvars, haliases]
  cases hget : c.commands.get? head with
  | some k =>
    obtain ⟨i, -, hi⟩ := Option.bind_eq_some_iff.mp hget
    exact (mirrors_command h (hc.steady k (List.mem_of_getElem? hi)) _ hcd').map
      fun e f hef => ⟨rfl, hef⟩
  | none =>
    cases c.vars.get? head with
    | some v =>
      dsimp only
      split
      · exact (mirrors_print hcd' _ _).map fun e f hef => ⟨rfl, hef⟩
      · have hassign := mirrors_operation hcd' (o := .assign head (Text.join " " stage.args)) (.inl rfl)
        exact hassign.map (S := AheadWith) (g := fun p => (true, p.2)) fun p q hpq => ⟨rfl, hpq.2⟩
    | none =>
      cases c.aliases.get? head with
      | some a => exact (mirrors_expansion h head _ _ hcd').map fun e f hef => ⟨rfl, hef⟩
      | none => exact (mirrors_print hcd' _ _).map fun e f hef => ⟨rfl, hef⟩

theorem mirrors_stage (stage : Stage) (hcd : Ahead c d) :
    Mirrors Ahead (watchStage watch stage c) (runStage run stage d) := by
  unfold watchStage runStage
  cases stage.head? with
  | none => exact mirrors_done hcd
  | some head =>
    have hd : d.recorder.recording = false := hcd.recorder ▸ hcd.muted.recording
    dsimp only
    rw [hcd.muted.recording, hd, Option.map_eq_bind]
    refine (mirrors_dispatch h head stage hcd).bind fun p q hpq => ?_
    obtain ⟨known, e⟩ := p
    obtain ⟨known', f⟩ := q
    obtain ⟨-, hef⟩ := hpq
    cases known <;> cases known' <;> exact mirrors_done hef

theorem mirrors_stages (outer : Option (List String)) : ∀ (ss : List String)
    (piped : Option (List String)) {c d : Console}, Ahead c d →
      Mirrors Ahead (watchStages watch outer ss piped c) (runStages run outer ss piped d)
  | [], _, _, _, hcd => mirrors_done hcd
  | [last], piped, c, d, hcd => by
    exact (mirrors_stage h (.ofText last) (hcd.withPiped piped |>.withCapture outer)).map
      fun e f hef => hef.withPiped none
  | s :: next :: ss, piped, c, d, hcd => by
    refine ((mirrors_stage h (.ofText s) (hcd.withPiped piped |>.withCapture (some []))).within
      .producer).bind fun e f hef => ?_
    rw [hef.capture]
    exact mirrors_stages outer (next :: ss) _ hef

theorem mirrors_statement (text : String) (hcd : Ahead c d) :
    Mirrors Ahead (watchStatement watch text c) (runStatement run text d) := by
  unfold watchStatement runStatement
  cases stages text with
  | nil => exact mirrors_done hcd
  | cons first rest =>
    have hc : watchEcho text (Stage.ofText first).silent c = .done c := by
      simp [watchEcho, hcd.muted.echo]
    have hd : d.echo text (Stage.ofText first).silent = d := by
      simp [echo, hcd.settings, hcd.muted.echo]
    dsimp only
    rw [hc, hd, Watched.done_bind, hcd.capture, hcd.piped]
    exact mirrors_stages h _ _ _ hcd

theorem mirrors_statements : ∀ (texts : List String) {c d : Console}, Ahead c d →
    Mirrors Ahead (watchStatements watch texts c) (runStatements run texts d)
  | [], _, _, hcd => mirrors_done hcd
  | text :: texts, _, _, hcd =>
    (mirrors_statement h text hcd).bind fun _ _ => mirrors_statements texts

end Dispatch

/-- **A line runs alike on both consoles.** -/
theorem mirrors_line : ∀ (limit limit' : Nat) (_ : limit ≤ limit') (line : String) (c d : Console),
    Ahead c d → Mirrors Ahead (watchLine limit line c) (runLine limit' line d)
  | 0, limit', _, line, c, d, hcd => by
    rw [runLine_eq]
    exact mirrors_statements (fun _ _ _ _ => mirrors_stuck) _ hcd
  | limit + 1, limit' + 1, hle, line, c, d, hcd =>
    mirrors_statements (mirrors_line limit limit' (Nat.le_of_succ_le_succ hle)) _ hcd

end Console

end DevConsole
