import DevConsole.Proofs.Run.Printing
import DevConsole.Proofs.Run.Submission

/-!
# A console between calls

What a console is in the middle of is put right by each run before it ends. An operation only fills
the capture or takes the piped lines (`abides_perform`). A run leaves a capture only where it found
one, counts scripts and submitted lines back to where they were, and counts aliases back to 0 if no
alias was running (`settles_law`); and a run that found no piped lines leaves none
(`piped_runLine`). So a run that the host enters on a console at rest leaves it at rest
(`Entrance.rest_run`).
-/

namespace DevConsole

namespace Console

/-! ### Operations -/

/-- From the first console to the second the capture may have been filled and the piped lines may
have been taken; otherwise the consoles are in the middle of the same. -/
structure Abides (c d : Console) : Prop where
  capture : c.activity.capture = none → d.activity.capture = none
  piped : c.activity.piped = none → d.activity.piped = none
  aliasDepth : d.activity.aliasDepth = c.activity.aliasDepth
  execDepth : d.activity.execDepth = c.activity.execDepth
  dispatching : d.activity.dispatching = c.activity.dispatching

theorem abides_of_activity {c d : Console} (h : d.activity = c.activity) : Abides c d := by
  refine ⟨?_, ?_, ?_, ?_, ?_⟩ <;> simp [h]

theorem Abides.trans {c d e : Console} (h : Abides c d) (h' : Abides d e) : Abides c e where
  capture hc := h'.capture (h.capture hc)
  piped hc := h'.piped (h.piped hc)
  aliasDepth := h'.aliasDepth.trans h.aliasDepth
  execDepth := h'.execDepth.trans h.execDepth
  dispatching := h'.dispatching.trans h.dispatching

theorem abides_print (c : Console) (level : Level) (message : String) :
    Abides c (c.print level message) := by
  unfold print
  split
  · next ls hc _ => exact ⟨fun h => by simp [h] at hc, id, rfl, rfl, rfl⟩
  · exact abides_of_activity (same_toSink c ⟨level, message⟩).activity

theorem abides_echo (c : Console) (statement : String) (silent : Bool) :
    Abides c (c.echo statement silent) := by
  unfold echo
  split
  · exact abides_print c _ _
  · exact abides_of_activity rfl

theorem abides_printing : Printing Abides where
  trans := .trans
  print c level message _ := abides_print c level message
  besides _ _ _ _ _ _ := abides_of_activity rfl

/-- **An operation fills the capture or takes the piped lines, and leaves all else that the console
is in the middle of.** -/
theorem abides_perform (c : Console) (o : Operation) : Abides c (c.perform o).2 := by
  cases hprinting : o.isPrinting with
  | true => exact abides_printing.perform hprinting fun _ _ _ => abides_print c _ _
  | false =>
    cases hsilent : o.isSilent with
    | true => exact abides_of_activity (same_perform hsilent c).activity
    | false =>
      cases o with
      | display | takeOutput => exact abides_of_activity rfl
      | takePiped => exact ⟨id, fun _ => rfl, rfl, rfl, rfl⟩
      | print | assign | complete | cycle => cases hprinting
      | _ => cases hsilent

/-! ### Runs -/

/-- A run from the first console may end on the second. -/
structure Settles (c d : Console) : Prop where
  capture : c.activity.capture = none → d.activity.capture = none
  aliasDepth : c.activity.aliasDepth ≤ d.activity.aliasDepth
  outermost : c.activity.aliasDepth = 0 → d.activity.aliasDepth = 0
  execDepth : d.activity.execDepth = c.activity.execDepth
  dispatching : d.activity.dispatching = c.activity.dispatching

theorem Abides.settles {c d : Console} (h : Abides c d) : Settles c d where
  capture := h.capture
  aliasDepth := h.aliasDepth.ge
  outermost hc := h.aliasDepth.trans hc
  execDepth := h.execDepth
  dispatching := h.dispatching

theorem Settles.trans {c d e : Console} (h : Settles c d) (h' : Settles d e) : Settles c e where
  capture hc := h'.capture (h.capture hc)
  aliasDepth := h.aliasDepth.trans h'.aliasDepth
  outermost hc := h'.outermost (h.outermost hc)
  execDepth := h'.execDepth.trans h.execDepth
  dispatching := h'.dispatching.trans h.dispatching

/-- An alias is running after the run if and only if one was before it. -/
theorem Settles.aliasDepth_beq {c d : Console} (h : Settles c d) :
    (d.activity.aliasDepth == 0) = (c.activity.aliasDepth == 0) := by
  have hle := h.aliasDepth
  by_cases hc : c.activity.aliasDepth = 0
  · rw [hc, h.outermost hc]
  · have hd : d.activity.aliasDepth ≠ 0 := by omega
    rw [beq_eq_false_iff_ne.mpr hc, beq_eq_false_iff_ne.mpr hd]

/-- The run settles what it has begun. If it starts without a capture, there is a capture only inside
of stages whose output is captured for the next one. -/
def RunSettles (c : Console) (x : Watched Console) : Prop :=
  (∀ d, x.result = some d → Settles c d) ∧
    (c.activity.capture = none →
      ∀ m ∈ x.moments, .producer ∉ m.scopes → m.console.activity.capture = none)

theorem runSettles_done {c d : Console} (h : Settles c d) : RunSettles c (.done d) := by
  refine ⟨fun e he => ?_, fun _ m hm => by simp at hm⟩
  obtain rfl : d = e := Option.some.inj he
  exact h

theorem runSettles_of_activity {c d : Console} (h : d.activity = c.activity) :
    RunSettles c (.done d) := runSettles_done (abides_of_activity h).settles

theorem runSettles_moment {c d : Console} {act : Act} (h : Settles c d) :
    RunSettles c ⟨[⟨[], c, act⟩], some d⟩ := by
  refine ⟨fun e he => ?_, fun hc m hm _ => ?_⟩
  · obtain rfl : d = e := Option.some.inj he
    exact h
  · obtain rfl := List.mem_singleton.mp hm
    exact hc

/-- A scope in which the output is captured only if it is around it. -/
theorem RunSettles.inside {c d : Console} {x : Watched Console} {s : Scope} {f : Console → Console}
    (hx : RunSettles d x) (hd : c.activity.capture = none → d.activity.capture = none)
    (hf : ∀ e, Settles d e → Settles c (f e)) : RunSettles c ((x.within s).map f) := by
  obtain ⟨hresult, hmoments⟩ := hx
  refine ⟨fun e he => ?_, fun hc m hm hout => ?_⟩
  · obtain ⟨e, hxe, rfl⟩ := Option.map_eq_some_iff.mp he
    exact hf e (hresult e hxe)
  · obtain ⟨n, hn, rfl⟩ := List.mem_map.mp hm
    exact hmoments (hd hc) n hn fun h => hout (List.mem_cons_of_mem s h)

/-- **Every run settles what it has begun.** -/
theorem settles_law : Law RunSettles where
  done c := runSettles_of_activity rfl
  stuck c := ⟨fun d hd => by simp at hd, fun _ m hm => by simp at hm⟩
  bind c x f hx hf := by
    obtain ⟨hresult, hmoments⟩ := hx
    refine ⟨fun e he => ?_, fun hc m hm => ?_⟩
    · obtain ⟨d, hd, he⟩ := Watched.result_bind_eq_some.mp he
      exact (hresult d hd).trans ((hf d hd).1 e he)
    · obtain hm | ⟨d, hd, hm⟩ := Watched.mem_moments_bind.mp hm
      · exact hmoments hc m hm
      · exact (hf d hd).2 ((hresult d hd).capture hc) m hm
  operation c o := runSettles_moment (abides_perform c o).settles
  call c line := runSettles_moment (abides_of_activity rfl).settles
  addCommand c k := runSettles_of_activity (same_addCommand c k).activity
  takeLine c := runSettles_of_activity rfl
  record c text recorder _ := runSettles_of_activity rfl
  piped c piped := runSettles_done ⟨id, le_rfl, id, rfl, rfl⟩
  submission c line x hc hx := hx.inside id fun e he =>
    ⟨fun _ => rfl, he.aliasDepth, he.outermost, he.execDepth, hc.symm⟩
  producer c x hx := by
    refine ⟨fun e he => ?_, fun _ m hm hout => ?_⟩
    · obtain ⟨d, hd, rfl⟩ := Option.map_eq_some_iff.mp he
      have hsettles := hx.1 d hd
      exact ⟨id, hsettles.aliasDepth, hsettles.outermost, hsettles.execDepth,
        hsettles.dispatching⟩
    · obtain ⟨n, -, rfl⟩ := List.mem_map.mp hm
      exact absurd List.mem_cons_self hout
  expansion c x _ hx := hx.inside id fun e he => by
    have hdepth : c.activity.aliasDepth + 1 ≤ e.activity.aliasDepth := he.aliasDepth
    split
    · next h0 => exact ⟨he.capture, h0.le, fun _ => rfl, he.execDepth, he.dispatching⟩
    · next h0 =>
      exact ⟨he.capture, by omega, fun h => absurd h h0, he.execDepth, he.dispatching⟩
  script c x _ hx := hx.inside id fun e he => by
    have hdepth : e.activity.execDepth = c.activity.execDepth + 1 := he.execDepth
    refine ⟨he.capture, he.aliasDepth, he.outermost, ?_, he.dispatching⟩
    show e.activity.execDepth - 1 = c.activity.execDepth
    omega

/-! ### The lines of the stage before -/

section Piped
variable {run : LineRunner}

/-- After the last stage nothing is piped. -/
theorem piped_runStages (outer : Option (List String)) : ∀ (s : String) (ss : List String)
    (piped : Option (List String)) {c d : Console},
      runStages run outer (s :: ss) piped c = some d → d.activity.piped = none
  | _, [], _, _, d, hd => by
    obtain ⟨e, -, rfl⟩ := Option.map_eq_some_iff.mp hd
    rfl
  | _, next :: ss, _, _, d, hd => by
    obtain ⟨e, -, he⟩ := Option.bind_eq_some_iff.mp hd
    exact piped_runStages outer next ss _ he

theorem piped_runStatements : ∀ (texts : List String) {c d : Console}, c.activity.piped = none →
    runStatements run texts c = some d → d.activity.piped = none
  | [], c, d, hc, hd => Option.some.inj hd ▸ hc
  | text :: texts, c, d, hc, hd => by
    obtain ⟨e, he, hd⟩ := Option.bind_eq_some_iff.mp hd
    refine piped_runStatements texts ?_ hd
    unfold runStatement at he
    split at he
    · exact Option.some.inj he ▸ hc
    · next first rest _ => exact piped_runStages _ first rest _ he

end Piped

/-- **A line that finds nothing piped leaves nothing piped.** -/
theorem piped_runLine {limit : Nat} {line : String} {c d : Console} (hc : c.activity.piped = none)
    (hd : runLine limit line c = some d) : d.activity.piped = none := by
  cases limit <;> exact piped_runStatements _ hc hd

theorem piped_runAll {limit : Nat} : ∀ (lines : List String) {c d : Console},
    c.activity.piped = none → runAll (runLine limit) lines c = some d → d.activity.piped = none
  | [], c, d, hc, hd => Option.some.inj hd ▸ hc
  | line :: lines, c, d, hc, hd => by
    obtain ⟨e, he, hd⟩ := Option.bind_eq_some_iff.mp hd
    exact piped_runAll lines (piped_runLine hc he) hd

theorem piped_executeNested {limit : Nat} {line : String} {c d : Console}
    (hc : c.activity.piped = none) (hd : c.executeNested limit line = some d) :
    d.activity.piped = none := by
  unfold executeNested nestedWith at hd
  dsimp only at hd
  split at hd
  · exact Option.some.inj hd ▸ hc
  · exact piped_runLine hc hd

theorem piped_execute {limit : Nat} {line : String} {c d : Console}
    (hc : c.activity.piped = none) (hd : c.execute limit line = some d) :
    d.activity.piped = none := by
  cases hdispatching : c.activity.dispatching with
  | true =>
    rw [execute_of_dispatching hdispatching] at hd
    exact piped_executeNested hc hd
  | false =>
    by_cases hblank : Text.trim line = ""
    · unfold execute executeWith at hd
      dsimp only at hd
      rw [if_pos hblank] at hd
      exact Option.some.inj hd ▸ hc
    · exact (submitsAnew hdispatching hblank).piped limit d hd

theorem piped_execFile {limit : Nat} {path : String} {c : Console}
    {r : Except ConsoleError Nat × Console} (hc : c.activity.piped = none)
    (hr : c.execFile limit path = some r) : r.2.activity.piped = none := by
  unfold execFile execFileWith at hr
  split at hr
  · obtain rfl := Option.some.inj hr
    exact (abides_print c _ _).piped hc
  · cases hread : Script.read c.disk path with
    | error e =>
      rw [hread] at hr
      exact Option.some.inj hr ▸ hc
    | ok lines =>
      rw [hread] at hr
      obtain ⟨d, hd, rfl⟩ := Option.map_eq_some_iff.mp hr
      show d.activity.piped = none
      exact piped_runAll lines (by exact hc) hd

/-! ### Calls of the host -/

/-- **A run that the host enters on a console at rest leaves it at rest.** -/
theorem Entrance.rest_run {limit : Nat} {c d : Console} {e : Entrance} (hc : c.activity = .rest)
    (hd : e.run limit c = some d) : d.activity = .rest := by
  have hresult : (e.watched limit c).result = some d := (e.watched_result limit c).trans hd
  have hsettles := (settles_law.entrance limit c e).1 d hresult
  have hpiped : d.activity.piped = none := by
    have hnone : c.activity.piped = none := by rw [hc]; rfl
    cases e with
    | execute line => exact piped_execute hnone hd
    | submit => exact piped_execute (c := c.withLineTaken) hnone hd
    | nested line => exact piped_executeNested hnone hd
    | execFile path =>
      obtain ⟨r, hr, rfl⟩ := Option.map_eq_some_iff.mp hd
      exact piped_execFile hnone hr
  have hcapture : d.activity.capture = none := hsettles.capture (by rw [hc]; rfl)
  have haliases : d.activity.aliasDepth = 0 := hsettles.outermost (by rw [hc]; rfl)
  have hexec : d.activity.execDepth = 0 := hsettles.execDepth.trans (by rw [hc]; rfl)
  have hdispatching : d.activity.dispatching = false := hsettles.dispatching.trans (by rw [hc]; rfl)
  cases hactivity : d.activity with
  | mk capture piped aliasDepth execDepth dispatching =>
    rw [hactivity] at hpiped hcapture haliases hexec hdispatching
    subst hpiped hcapture haliases hexec hdispatching
    rfl

end Console

end DevConsole
