import DevConsole.Frame
import DevConsole.Proofs.Run.Rest
import DevConsole.Proofs.Run.Setup
import DevConsole.Proofs.Run.TurnLaw

/-!
# What a recording holds

While a recording is on, every stage whose first word names something is recorded when it is over,
unless an alias or a script runs it (`records_law`). These are the stages that were typed, and those
of the lines that handlers run: a run of lines records just what was typed if and only if no handler
runs a stage outside of aliases and scripts (`recorded_lines`).
-/

namespace DevConsole

/-! ### Recorders -/

namespace Recorder

/-- The recorder after texts, as far as there is room for them. -/
def keep (r : Recorder) (texts : List String) : Recorder :=
  { r with lines := r.lines ++ (texts.take (r.limit - r.lines.size)).toArray }

theorem keep_nil (r : Recorder) : r.keep [] = r := by
  simp [keep]

theorem keep_append (r : Recorder) (xs ys : List String) :
    r.keep (xs ++ ys) = (r.keep xs).keep ys := by
  have hroom : r.limit - (r.lines.size + min (r.limit - r.lines.size) xs.length) =
      r.limit - r.lines.size - xs.length := by omega
  simp [keep, List.take_append, hroom]

/-- A recorded text. -/
theorem keep_record {r r' : Recorder} {text : String} (h : r.record? text = some r') :
    r.keep [text] = r' := by
  unfold record? at h
  split at h
  · cases h
  · next hroom =>
    obtain rfl := Option.some.inj h
    have hall : [text].take (r.limit - r.lines.size) = [text] :=
      List.take_of_length_le (by simp; omega)
    rw [keep, hall, Array.push_eq_append]

/-- A text for which there is no room. -/
theorem keep_full {r : Recorder} {text : String} (h : r.record? text = none) :
    r.keep [text] = r := by
  unfold record? at h
  split at h
  · next hroom => simp [keep, Nat.sub_eq_zero_of_le hroom]
  · cases h

theorem lines_keep {r : Recorder} {texts : List String}
    (h : r.lines.size + texts.length ≤ r.limit) :
    (r.keep texts).lines.toList = r.lines.toList ++ texts := by
  have hroom : texts.length ≤ r.limit - r.lines.size := by omega
  simp [keep, List.take_of_length_le hroom]

end Recorder

/-! ### Recorded stages -/

namespace Turn

/-- Neither an alias nor a script runs it. -/
def isDirect (t : Turn) : Bool := t.origins.all fun o => o != .expansion && o != .script

/-- The text of a stage whose first word names something. -/
def known? (t : Turn) : Option String :=
  match t.part with
  | .statement _ => none
  | .stage text .. => if t.console.knows text then some (Stage.ofText text).text else none

theorem isDirect_of_typed (t : Turn) (h : t.isTyped = true) : t.isDirect = true := by
  unfold isDirect
  rw [List.isEmpty_iff.mp h]
  rfl

/-- The texts of the known stages that neither an alias nor a script runs. -/
def directTexts (ts : List Turn) : List String := pick isDirect known? ts

/-- The texts of the known stages that were typed. -/
def typedTexts (ts : List Turn) : List String := pick isTyped known? ts

/-- The turns inside of an alias or a script are not direct. -/
theorem directTexts_under_eq_nil {o : Origin} (ho : o = .expansion ∨ o = .script)
    (ts : List Turn) : directTexts (ts.map (·.under o)) = [] :=
  pick_under_eq_nil (fun t => by rcases ho with rfl | rfl <;> simp [isDirect, under]) ts

/-- The turns of a handler's lines and of captured stages are as direct as others. -/
theorem directTexts_under {o : Origin} (ho : o ≠ .expansion) (ho' : o ≠ .script)
    (ts : List Turn) : directTexts (ts.map (·.under o)) = directTexts ts :=
  pick_under (fun t => by simp [isDirect, under, ho, ho']) (fun _ => rfl) ts

end Turn

/-- The recording is neither started nor stopped. -/
def Act.leavesRecording : Act → Bool
  | .operation .startRecording | .operation .stopRecording => false
  | .operation _ | .execute _ => true

namespace Console

/-- Neither an alias nor a script is running. -/
def atTop (c : Console) : Bool := c.activity.aliasDepth == 0 && c.activity.execDepth == 0

/-- What a recorder is given of turns that start on the console. -/
def recordable (c : Console) (ts : List Turn) : List String :=
  if c.atTop then Turn.directTexts ts else []

theorem recordable_append (c : Console) (ts us : List Turn) :
    c.recordable (ts ++ us) = c.recordable ts ++ c.recordable us := by
  unfold recordable
  split
  · exact Turn.pick_append ts us
  · rfl

theorem recordable_congr {c d : Console} (h : d.atTop = c.atTop) (ts : List Turn) :
    d.recordable ts = c.recordable ts := by
  unfold recordable
  rw [h]

theorem recordable_of_not_top {c : Console} (h : c.atTop = false) (ts : List Turn) :
    c.recordable ts = [] := by
  unfold recordable
  rw [h]
  rfl

theorem recordable_under {o : Origin} (ho : o ≠ .expansion) (ho' : o ≠ .script) (c : Console)
    (ts : List Turn) : c.recordable (ts.map (·.under o)) = c.recordable ts := by
  unfold recordable
  rw [Turn.directTexts_under ho ho']

theorem Settles.atTop {c d : Console} (h : Settles c d) : d.atTop = c.atTop := by
  rw [Console.atTop, Console.atTop, h.execDepth, h.aliasDepth_beq]

/-- While the recording stays on, the recorder gets what is to be recorded of the turns. -/
def Records (c : Console) (x : Watched Console) (ts : List Turn) : Prop :=
  c.recorder.recording = true → (∀ m ∈ x.moments, m.act.leavesRecording = true) →
    ∀ d, x.result = some d → d.recorder = c.recorder.keep (c.recordable ts)

theorem Records.of_recorder {c d : Console} (h : d.recorder = c.recorder) :
    Records c (.done d) [] := by
  intro _ _ e he
  obtain rfl : d = e := Option.some.inj he
  rw [h, recordable]
  split <;> exact c.recorder.keep_nil.symm

/-- Another console around the run, and other turns for the recorder. -/
theorem Records.inside {c d : Console} {x : Watched Console} {s : Scope} {f : Console → Console}
    {ts us : List Turn} (hx : Records d x ts) (hd : d.recorder = c.recorder)
    (hus : c.recordable us = d.recordable ts) (hf : ∀ e, (f e).recorder = e.recorder) :
    Records c ((x.within s).map f) us := by
  intro hc hmoments e he
  obtain ⟨e, hxe, rfl⟩ := Option.map_eq_some_iff.mp he
  rw [hf, hus, ← hd]
  refine hx (hd ▸ hc) (fun m hm => ?_) e hxe
  exact hmoments (m.inside s) (List.mem_map.mpr ⟨m, hm, rfl⟩)

/-- A stage that ends is given to the recorder after all that it has run. -/
theorem recorder_ended {c d e : Console} {text : String} {ms : List Moment}
    {handed : Option (List String)} (hc : c.recorder.recording = true)
    (hd : d.recorder.recording = true) (htop : d.atTop = c.atTop)
    (he : (c.ended text d).result = some e) :
    e.recorder = d.recorder.keep (c.recordable [⟨[], c, .stage text ms handed⟩]) := by
  have hgiven : c.recordable [⟨[], c, .stage text ms handed⟩] =
      if c.knows text && c.atTop then [(Stage.ofText text).text] else [] := by
    unfold recordable
    cases c.atTop <;> cases hknows : c.knows text <;>
      simp [Turn.directTexts, Turn.pick_cons, Turn.pick_nil, Turn.isDirect, Turn.known?, hknows]
  rw [hgiven]
  unfold ended at he
  cases hknows : c.knows text with
  | false =>
    rw [hknows] at he
    obtain rfl := Option.some.inj he
    exact d.recorder.keep_nil.symm
  | true =>
    rw [hknows, if_pos rfl, watchRecord_result] at he
    obtain rfl := Option.some.inj he
    unfold recordStage
    rw [hc, hd, Bool.true_and, Bool.true_and, show (d.activity.aliasDepth == 0 &&
      d.activity.execDepth == 0) = c.atTop from htop, Bool.true_and]
    cases c.atTop with
    | false => exact d.recorder.keep_nil.symm
    | true =>
      rw [if_pos rfl, if_pos rfl]
      cases hr : d.recorder.record? (Stage.ofText text).text with
      | none => exact (sameSetup_print d _ _).recorder.trans (Recorder.keep_full hr).symm
      | some r => exact (Recorder.keep_record hr).symm

theorem Records.ended {c : Console} {x : Watched Console} {ts : List Turn} (hlawful : Lawful c x)
    (hx : Records c x ts) (text : String) (handed : Console → Option (List String)) :
    Records c (x.bind (c.ended text))
      (ts ++ c.stageTurn text (x.bind (c.ended text)) handed) := by
  intro hc hmoments e he
  obtain ⟨d, hd, he'⟩ := Watched.result_bind_eq_some.mp he
  have hrecorder := hx hc (fun m hm => hmoments m (Watched.mem_moments_bind.mpr (.inl hm))) d hd
  have hrecording : d.recorder.recording = true := by rw [hrecorder]; exact hc
  have htop := ((hlawful _ settles_law).1 d hd).atTop
  rw [stageTurn, he, Turn.following_some, recordable_append, Recorder.keep_append, ← hrecorder]
  exact recorder_ended hc hrecording htop he'

/-- **A recording gets all that is to be recorded, in order.** -/
theorem records_law : TurnLaw .any Records where
  own _ _ _ _ := trivial
  obeys _ _ _ h := h fun k _ args s => Routine.within_any (k.handler args) s
  done c := .of_recorder rfl
  stuck c _ _ d hd := by cases hd
  bind c x f ts us hlawful hx hf hc hmoments e he := by
    obtain ⟨d, hd, he⟩ := Watched.result_bind_eq_some.mp he
    have hrecorder := hx hc (fun m hm => hmoments m (Watched.mem_moments_bind.mpr (.inl hm))) d hd
    have htop := ((hlawful _ settles_law).1 d hd).atTop
    rw [hd, Turn.following_some, recordable_append, Recorder.keep_append, ← hrecorder,
      ← recordable_congr htop]
    refine hf d hd (by rw [hrecorder]; exact hc) (fun m hm => ?_) e he
    exact hmoments m (Watched.mem_moments_bind.mpr (.inr ⟨d, hd, hm⟩))
  operation c o _ hc hmoments d hd := by
    obtain rfl : (c.perform o).2 = d := Option.some.inj hd
    have hleaves : (Act.operation o).leavesRecording = true := hmoments _ List.mem_cons_self
    have hsame : (c.perform o).2.recorder = c.recorder := by
      cases hsetup : o.isSetup with
      | false => exact (sameSetup_perform hsetup c).recorder
      | true =>
        cases o with
        | setEcho => rfl
        | startRecording | stopRecording => cases hleaves
        | _ => cases hsetup
    exact Records.of_recorder hsame hc (fun m hm => by cases hm) _ rfl
  call c line hc _ d hd := Records.of_recorder rfl hc (fun m hm => by cases hm) d hd
  addCommand c k _ := .of_recorder (sameSetup_addCommand c k).recorder
  takeLine c := .of_recorder rfl
  piped c piped := .of_recorder rfl
  begins c text first rest f ts _ hx hc hmoments d hd := by
    have hsame := (sameSetup_echo c text (Stage.ofText first).silent).recorder
    have htop := (abides_echo c text (Stage.ofText first).silent).settles.atTop
    have hecho := watchEcho_result text (Stage.ofText first).silent c
    rw [Watched.result_bind, hecho, Option.bind_some] at hd
    have hturns : c.recordable (⟨[], c, .statement text⟩ :: ts) = c.recordable ts := by
      unfold recordable
      split <;> rfl
    rw [hturns, ← recordable_congr htop, ← hsame]
    refine hx (hsame ▸ hc) (fun m hm => hmoments m ?_) d hd
    exact Watched.mem_moments_bind.mpr (.inr ⟨_, hecho, hm⟩)
  ends c text x ts hlawful hx := hx.ended hlawful text _
  producer c d text x ts hd hlawful hx := by
    subst hd
    refine (hx.ended hlawful text fun e => some (e.activity.capture.getD [])).inside rfl ?_
      fun _ => rfl
    rw [recordable_append, recordable_append, recordable_under (by decide) (by decide)]
    rfl
  submission c line x ts _ hx := hx.inside rfl rfl fun _ => rfl
  expansion c x ts _ hx := by
    refine hx.inside rfl ?_ fun e => by split <;> rfl
    rw [recordable, Turn.directTexts_under_eq_nil (.inl rfl), ite_self,
      recordable_of_not_top (by simp [atTop, withAliasDepth])]
  script c x ts _ hx := by
    refine hx.inside rfl ?_ fun _ => rfl
    rw [recordable, Turn.directTexts_under_eq_nil (.inr rfl), ite_self,
      recordable_of_not_top (by simp [atTop, withExecDepth])]
  handler _ c x ts hx hc hmoments d hd := by
    rw [recordable_under (by decide) (by decide)]
    exact hx hc hmoments d hd

/-! ### Where recorded lines come from -/

/-- Every recorded line was there before the run or is the text of a known stage of the run. -/
def ComesFrom (c : Console) (x : Watched Console) (ts : List Turn) : Prop :=
  ∀ d, x.result = some d → ∀ line ∈ d.recorder.lines, line ∈ c.recorder.lines ∨
    ∃ t ∈ ts, t.known? = some line

theorem ComesFrom.of_lines {c d : Console}
    (h : ∀ line ∈ d.recorder.lines, line ∈ c.recorder.lines) : ComesFrom c (.done d) [] := by
  intro e he line hline
  obtain rfl : d = e := Option.some.inj he
  exact .inl (h line hline)

theorem comesFrom_of_recorder {c d : Console} (h : d.recorder = c.recorder) :
    ComesFrom c (.done d) [] := .of_lines fun _ hline => h ▸ hline

/-- Another console around the run, and the same turns under something. -/
theorem ComesFrom.inside {c d : Console} {x : Watched Console} {s : Scope} {f : Console → Console}
    {ts us : List Turn} (hx : ComesFrom d x ts) (hd : d.recorder = c.recorder)
    (hus : ∀ t ∈ ts, ∃ u ∈ us, u.known? = t.known?) (hf : ∀ e, (f e).recorder = e.recorder) :
    ComesFrom c ((x.within s).map f) us := by
  intro e he line hline
  obtain ⟨e, hxe, rfl⟩ := Option.map_eq_some_iff.mp he
  rw [hf] at hline
  rcases hx e hxe line hline with hold | ⟨t, ht, hknown⟩
  · exact .inl (hd ▸ hold)
  · obtain ⟨u, hu, hut⟩ := hus t ht
    exact .inr ⟨u, hu, hut.trans hknown⟩

theorem exists_known_under (o : Origin) {t : Turn} {ts : List Turn} (ht : t ∈ ts) :
    ∃ u ∈ ts.map (·.under o), u.known? = t.known? := ⟨_, List.mem_map_of_mem ht, rfl⟩

theorem lines_recordStage {wasRecording : Bool} {text line : String} {c : Console}
    (h : line ∈ (recordStage wasRecording text c).recorder.lines) :
    line ∈ c.recorder.lines ∨ line = text := by
  unfold recordStage at h
  split at h
  · split at h
    · next r hr =>
      unfold Recorder.record? at hr
      split at hr
      · cases hr
      · obtain rfl := Option.some.inj hr
        exact Array.mem_push.mp h
    · rw [warn, (sameSetup_print c _ _).recorder] at h
      exact .inl h
  · exact .inl h

theorem ComesFrom.ended {c : Console} {x : Watched Console} {ts : List Turn}
    (hx : ComesFrom c x ts) (text : String) (handed : Console → Option (List String)) :
    ComesFrom c (x.bind (c.ended text))
      (ts ++ c.stageTurn text (x.bind (c.ended text)) handed) := by
  intro e he line hline
  obtain ⟨d, hd, he'⟩ := Watched.result_bind_eq_some.mp he
  have hbefore : line ∈ d.recorder.lines ∨ c.knows text = true ∧ line = (Stage.ofText text).text := by
    unfold Console.ended at he'
    cases hknows : c.knows text with
    | false =>
      rw [hknows] at he'
      obtain rfl := Option.some.inj he'
      exact .inl hline
    | true =>
      rw [hknows, if_pos rfl, watchRecord_result] at he'
      obtain rfl := Option.some.inj he'
      exact (lines_recordStage hline).imp_right fun h => ⟨rfl, h⟩
  rw [stageTurn, he, Turn.following_some]
  rcases hbefore with hbefore | ⟨hknows, rfl⟩
  · rcases hx d hd line hbefore with hold | ⟨t, ht, hknown⟩
    · exact .inl hold
    · exact .inr ⟨t, List.mem_append_left _ ht, hknown⟩
  · exact .inr ⟨_, List.mem_append_right _ List.mem_cons_self, if_pos hknows⟩

/-- An operation records nothing. -/
theorem lines_perform {c : Console} {o : Operation} {line : String}
    (h : line ∈ (c.perform o).2.recorder.lines) : line ∈ c.recorder.lines := by
  cases hsetup : o.isSetup with
  | false => exact (sameSetup_perform hsetup c).recorder ▸ h
  | true =>
    cases o with
    | setEcho | stopRecording => exact h
    | startRecording => cases Array.not_mem_empty line h
    | _ => cases hsetup

/-- **Recorded lines are texts of known stages.** -/
theorem comesFrom_law : TurnLaw .any ComesFrom where
  own _ _ _ _ := trivial
  obeys _ _ _ h := h fun k _ args s => Routine.within_any (k.handler args) s
  done c := comesFrom_of_recorder rfl
  stuck c d hd := by cases hd
  bind c x f ts us _ hx hf e he line hline := by
    obtain ⟨d, hd, he⟩ := Watched.result_bind_eq_some.mp he
    rw [hd, Turn.following_some]
    rcases hf d hd e he line hline with hline | ⟨t, ht, hknown⟩
    · rcases hx d hd line hline with hold | ⟨t, ht, hknown⟩
      · exact .inl hold
      · exact .inr ⟨t, List.mem_append_left _ ht, hknown⟩
    · exact .inr ⟨t, List.mem_append_right _ ht, hknown⟩
  operation c o _ d hd := ComesFrom.of_lines (fun _ => lines_perform) d hd
  call c line d hd := comesFrom_of_recorder rfl d hd
  addCommand c k _ := comesFrom_of_recorder (sameSetup_addCommand c k).recorder
  takeLine c := comesFrom_of_recorder rfl
  piped c piped := comesFrom_of_recorder rfl
  begins c text first rest f ts _ hx e he line hline := by
    rw [Watched.result_bind, watchEcho_result, Option.bind_some] at he
    rcases hx e he line hline with hold | ⟨t, ht, hknown⟩
    · rw [(sameSetup_echo c text _).recorder] at hold
      exact .inl hold
    · exact .inr ⟨t, List.mem_cons_of_mem _ ht, hknown⟩
  ends c text x ts _ hx := hx.ended text _
  producer c d text x ts hd _ hx := by
    subst hd
    refine (hx.ended text fun e => some (e.activity.capture.getD [])).inside rfl (fun t ht => ?_)
      fun _ => rfl
    rcases List.mem_append.mp ht with ht | ht
    · obtain ⟨u, hu, hknown⟩ := exists_known_under .producer ht
      exact ⟨u, List.mem_append_left _ hu, hknown⟩
    · exact ⟨t, List.mem_append_right _ ht, rfl⟩
  submission c line x ts _ hx := hx.inside rfl (fun t ht => ⟨t, ht, rfl⟩) fun _ => rfl
  expansion c x ts _ hx :=
    hx.inside rfl (fun _ => exists_known_under .expansion) fun e => by split <;> rfl
  script c x ts _ hx := hx.inside rfl (fun _ => exists_known_under .script) fun _ => rfl
  handler _ c x ts hx d hd line hline := by
    rcases hx d hd line hline with hold | ⟨t, ht, hknown⟩
    · exact .inl hold
    · obtain ⟨u, hu, hut⟩ := exists_known_under .handler ht
      exact .inr ⟨u, hu, hut.trans hknown⟩

/-! ### Lines of the host -/

/-- Watches lines that the host runs one after the other. -/
def watchSent (limit : Nat) : List String → Console → Watched Console :=
  watchAll (watchExecute (watchLine limit))

/-- The turns of lines that the host runs one after the other. -/
def turnsSent (limit : Nat) : List String → Console → List Turn :=
  turnsAll (watchExecute (watchLine limit)) (turnsExecute (turnsLine limit))

theorem watchSent_result (limit : Nat) : ∀ (lines : List String) (c : Console),
    (watchSent limit lines c).result = App.runSent limit lines c
  | [], _ => rfl
  | line :: lines, c => by
    show ((watchExecute (watchLine limit) line c).bind (watchSent limit lines)).result = _
    rw [Watched.result_bind, watchExecute_result (watchLine_result limit)]
    exact congrArg _ (funext fun d => watchSent_result limit lines d)

theorem typedAs_sent (limit : Nat) : ∀ (lines : List String) {c d : Console},
    (watchSent limit lines c).result = some d → TypedAs (turnsSent limit lines c)
      (lines.flatMap fun line => (statements (Text.trim line)).filter (stages · ≠ []))
      (lines.flatMap fun line => (statements (Text.trim line)).flatMap stages)
  | [], _, _, _ => ⟨rfl, rfl⟩
  | line :: lines, c, d, hd => by
    obtain ⟨e, he, hd⟩ := Watched.result_bind_eq_some.mp hd
    have hall := (typedAs_execute he).append (typedAs_sent limit lines hd)
    rw [turnsSent, turnsAll, he, Turn.following_some, List.flatMap_cons, List.flatMap_cons]
    exact hall

/-- **A recording holds what was typed and what handlers ran.** The lines that the host runs while a
recording stays on add to it, in order, the known stages that neither an alias nor a script runs; of
these, the typed ones come from the stages of the lines. If there is room for all, just the typed
ones were added if and only if there are no others. -/
theorem recorded_lines {limit : Nat} {lines : List String} {c d : Console}
    (hc : c.activity = .rest) (hrecording : c.recorder.recording = true)
    (hleaves : ∀ m ∈ (watchSent limit lines c).moments, m.act.leavesRecording = true)
    (hd : App.runSent limit lines c = some d) :
    Turn.pick Turn.isTyped Turn.stage? (turnsSent limit lines c) =
        lines.flatMap (fun line => (statements (Text.trim line)).flatMap stages) ∧
      d.recorder = c.recorder.keep (Turn.directTexts (turnsSent limit lines c)) ∧
      (c.recorder.lines.size + (Turn.directTexts (turnsSent limit lines c)).length ≤
          c.recorder.limit →
        (d.recorder.lines.toList =
            c.recorder.lines.toList ++ Turn.typedTexts (turnsSent limit lines c) ↔
          ∀ t ∈ turnsSent limit lines c, t.isDirect = true → t.known?.isSome = true →
            t.isTyped = true)) := by
  have hresult : (watchSent limit lines c).result = some d :=
    (watchSent_result limit lines c).trans hd
  have hrecords : Records c (watchSent limit lines c) (turnsSent limit lines c) :=
    records_law.all (fun line e => lawful_law.execute (lawful_law.line limit) line e)
      (fun line e => records_law.execute (records_law.pipeLaw.line limit) line e) lines c
  have hrecorder : d.recorder = c.recorder.keep (Turn.directTexts (turnsSent limit lines c)) := by
    have htop : c.atTop = true := by rw [atTop, hc]; rfl
    have hkeep := hrecords hrecording hleaves d hresult
    rwa [recordable, htop, if_pos rfl] at hkeep
  refine ⟨(typedAs_sent limit lines hresult).stages, hrecorder, fun hroom => ?_⟩
  rw [hrecorder, Recorder.lines_keep hroom, List.append_cancel_left_eq]
  exact Turn.pick_eq_pick_iff Turn.isDirect_of_typed _

/-- The line that a handler runs is recorded before the stage that was typed. -/
theorem recorded_lines_telling :
    ∃ d, App.runSent 5 ["tell | grep h; echo a"] telling.startRecording = some d ∧
      d.recorder.lines.toList = ["echo hi", "tell", "grep h", "echo a"] ∧
      d.recorder.lines.toList ≠
        Turn.typedTexts (turnsSent 5 ["tell | grep h; echo a"] telling.startRecording) := by
  have hsome : (App.runSent 5 ["tell | grep h; echo a"] telling.startRecording).isSome = true := by
    decide +kernel
  obtain ⟨d, hd⟩ := Option.isSome_iff_exists.mp hsome
  obtain ⟨-, hrecorder, -⟩ := @recorded_lines 5 _ telling.startRecording d (by decide +kernel)
    (by decide +kernel) (List.all_eq_true.mp (by decide +kernel)) hd
  have htexts : Turn.directTexts (turnsSent 5 ["tell | grep h; echo a"] telling.startRecording) =
      ["echo hi", "tell", "grep h", "echo a"] := by decide +kernel
  have hlines : d.recorder.lines.toList = ["echo hi", "tell", "grep h", "echo a"] := by
    rw [hrecorder, htexts]
    decide +kernel
  refine ⟨d, hd, hlines, ?_⟩
  rw [hlines]
  decide +kernel

end Console

end DevConsole
