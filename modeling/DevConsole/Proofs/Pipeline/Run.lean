import DevConsole.Proofs.Pipeline.Stages

/-!
# Runs of pipelines

The producer of a pipeline runs with a capture of its own. The capture gets the lines of all that it
prints but for warnings and errors, which go to the display unchanged (`watched_producer`), and the
filters behind it get the captured lines (`execute_pipeline`).
-/

namespace DevConsole

namespace Console

/-! ### The producer -/

/-- Runs what a line runs in turn. -/
def deeper : (limit : Nat) → LineRunner
  | 0 => fun _ _ => none
  | limit + 1 => runLine limit

/-- Watches `deeper`. -/
def watchDeeper : (limit : Nat) → LineWatcher
  | 0 => fun _ _ => .stuck
  | limit + 1 => watchLine limit

theorem runLine_eq (limit : Nat) (line : String) (c : Console) :
    runLine limit line c = runStatements (deeper limit) (statements line) c := by
  cases limit <;> rfl

theorem watchDeeper_result (limit : Nat) (line : String) (c : Console) :
    (watchDeeper limit line c).result = deeper limit line c := by
  cases limit with
  | zero => rfl
  | succ limit => exact watchLine_result limit line c

theorem Law.deeper {P : Console → Watched Console → Prop} (law : Law P) (limit : Nat)
    (line : String) (c : Console) : P c (watchDeeper limit line c) := by
  cases limit with
  | zero => exact law.stuck c
  | succ limit => exact law.line limit line c

/-- A run inside a submitted line, with a capture, has a capture at every moment. -/
def KeepsCapture (c : Console) (x : Watched Console) : Prop :=
  c.activity.dispatching = true → c.activity.capture.isSome = true →
    (∀ m ∈ x.moments, m.console.activity.capture.isSome = true) ∧
      ∀ d, x.result = some d → d.activity.dispatching = true ∧ d.activity.capture.isSome = true

theorem keepsCapture_done {c d : Console}
    (hdispatching : d.activity.dispatching = c.activity.dispatching)
    (hcapture : d.activity.capture.isSome = c.activity.capture.isSome) :
    KeepsCapture c (.done d) := by
  intro hc hs
  refine ⟨fun m hm => by simp at hm, fun e he => ?_⟩
  obtain rfl : d = e := Option.some.inj he
  exact ⟨hdispatching.trans hc, hcapture.trans hs⟩

/-- A scope that starts with a capture and leaves one as it was. -/
theorem KeepsCapture.inside {c d : Console} {x : Watched Console} {s : Scope}
    {f : Console → Console} (hx : KeepsCapture d x)
    (hd : d.activity.dispatching = c.activity.dispatching)
    (hs : c.activity.capture.isSome = true → d.activity.capture.isSome = true)
    (hf : ∀ e, (f e).activity.dispatching = e.activity.dispatching)
    (hf' : ∀ e, c.activity.capture.isSome = true → e.activity.capture.isSome = true →
      (f e).activity.capture.isSome = true) :
    KeepsCapture c ((x.within s).map f) := by
  intro hc hcapture
  obtain ⟨hmoments, hresult⟩ := hx (hd.trans hc) (hs hcapture)
  refine ⟨fun m hm => ?_, fun e he => ?_⟩
  · obtain ⟨n, hn, rfl⟩ := List.mem_map.mp hm
    exact hmoments n hn
  · obtain ⟨e, hxe, rfl⟩ := Option.map_eq_some_iff.mp he
    obtain ⟨h1, h2⟩ := hresult e hxe
    exact ⟨(hf e).trans h1, hf' e hcapture h2⟩

theorem keepsCapture_law : Law KeepsCapture where
  done c := keepsCapture_done rfl rfl
  stuck c _ _ := ⟨fun m hm => by simp at hm, fun d hd => by simp at hd⟩
  bind c x f hx hf hc hs := by
    obtain ⟨hmoments, hresult⟩ := hx hc hs
    cases hr : x.result with
    | none =>
      rw [Watched.moments_bind_of_none hr]
      exact ⟨hmoments, fun d hd => by simp [hr] at hd⟩
    | some d =>
      obtain ⟨hd, hds⟩ := hresult d hr
      obtain ⟨hmoments', hresult'⟩ := hf d hr hd hds
      rw [Watched.moments_bind_of_some hr]
      refine ⟨fun m hm => (List.mem_append.mp hm).elim (hmoments m) (hmoments' m), fun e he => ?_⟩
      rw [Watched.result_bind, hr] at he
      exact hresult' e he
  operation c o hc hs := by
    have hcourse := course_perform c o
    refine ⟨fun m hm => ?_, fun d hd => ?_⟩
    · obtain rfl := List.mem_singleton.mp hm
      exact hs
    · obtain rfl : (c.perform o).2 = d := Option.some.inj hd
      refine ⟨hcourse.dispatching.trans hc, ?_⟩
      rw [hcourse.capture, Option.isSome_map]
      exact hs
  call c line hc hs := by
    refine ⟨fun m hm => ?_, fun d hd => ?_⟩
    · obtain rfl := List.mem_singleton.mp hm
      exact hs
    · obtain rfl : c = d := Option.some.inj hd
      exact ⟨hc, hs⟩
  addCommand c k := by
    have hsame := same_addCommand c k
    exact keepsCapture_done (by rw [hsame.activity]) (by rw [hsame.activity])
  takeLine c := keepsCapture_done rfl rfl
  record c text recorder _ := keepsCapture_done rfl rfl
  piped c piped := keepsCapture_done rfl rfl
  submission c line x hc _ hc' := by
    rw [hc] at hc'
    cases hc'
  producer c x hx := hx.inside rfl (fun _ => rfl) (fun _ => rfl) fun _ hc _ => hc
  expansion c x _ hx :=
    hx.inside rfl id (fun e => by split <;> rfl) fun e _ he => by split <;> exact he
  script c x _ hx := hx.inside rfl id (fun _ => rfl) fun _ _ he => he

/-- From the first console to the second a producer ran through the moments: all it printed was
captured, but for warnings and errors, which went to the display unchanged. -/
structure Produced (c : Console) (ms : List Moment) (d : Console) : Prop where
  capture : d.activity.capture = some (capturedIn ms)
  output : c.output ++ shownIn ms = drainedIn ms ++ d.output
  shown : ∀ m ∈ ms, ∀ o, m.act = .operation o → (∀ level message, o ≠ .display level message) →
    m.shown = (m.console.messages o).filter fun l => !l.level.isCapturable

/-- **A producer's messages are captured, warnings and errors shown.** -/
theorem watched_producer {c d : Console} (hc : c.activity.dispatching = true)
    (hcapture : c.activity.capture = some []) (limit : Nat) (stage : Stage)
    (hd : (watchStage (watchDeeper limit) stage c).result = some d) :
    Produced c (watchStage (watchDeeper limit) stage c).moments d := by
  have hcourse := course_law.stage (course_law.deeper limit) stage c hc d hd
  obtain ⟨hkeeps, -⟩ := keepsCapture_law.stage (keepsCapture_law.deeper limit) stage c hc
    (by rw [hcapture]; rfl)
  refine ⟨?_, hcourse.output, fun m hm o hact hne => ?_⟩
  · rw [hcourse.capture, hcapture]
    rfl
  · have hsome := hkeeps m hm
    have hshown : m.console.shown o = m.console.uncaptured (m.console.messages o) := by
      cases o with
      | display level message => exact absurd rfl (hne level message)
      | _ => rfl
    rw [Moment.shown, hact]
    refine hshown.trans (List.filter_congr fun l _ => ?_)
    cases hm' : m.console.activity.capture with
    | none => rw [hm'] at hsome; cases hsome
    | some ls => rfl

theorem newline_notMem_of_mem_capturedIn {ms : List Moment} {l : String} (h : l ∈ capturedIn ms) :
    '\n' ∉ l.toList := by
  obtain ⟨m, -, hl⟩ := List.mem_flatMap.mp h
  unfold Moment.captured at hl
  split at hl
  · cases hl
  · split at hl
    · obtain ⟨k, -, hl⟩ := List.mem_flatMap.mp hl
      exact Text.newline_notMem_of_mem_lines hl
    · cases hl

/-! ### The whole pipeline -/

/-- The console on which the producer of a submitted pipeline starts. -/
def producerStart (c : Console) (p : String) (fs : List Filter) : Console :=
  let line := Text.trim (pipeline p fs)
  (((c.submitting line).echo line (Stage.ofText p).silent).withPiped none).withCapture (some [])

/-- Watches the producer of a submitted pipeline. -/
def watchProducer (limit : Nat) (c : Console) (p : String) (fs : List Filter) : Watched Console :=
  watchStage (watchDeeper limit) (.ofText p) (c.producerStart p fs)

theorem ofText_trim (p : String) : Stage.ofText (Text.trim p) = Stage.ofText p := by
  unfold Stage.ofText Text.trim
  rw [String.toList_ofList, Text.trimChars_trimChars]

/-- An echo leaves what the console is in the middle of. -/
theorem echo_activity {c : Console} (h : c.activity.capture = none) (statement : String)
    (silent : Bool) : (c.echo statement silent).activity = c.activity := by
  unfold echo
  split
  · unfold print
    rw [h]
    exact (same_toSink c _).activity
  · rfl

/-- A submitted pipeline runs its producer and then the filters. -/
theorem execute_pipeline_eq {limit : Nat} {c : Console} (hrest : c.activity = .rest) {p : String}
    (hp : IsStage p) {fs : List Filter} (hne : fs ≠ []) (hfs : ∀ f ∈ fs, f.IsTyped) {d : Console}
    (hd : (c.watchProducer limit p fs).result = some d) :
    c.execute limit (pipeline p fs) = (runStages (deeper limit) none (fs.map (·.text))
      (some (d.activity.capture.getD [])) d).map settled := by
  have hline : Text.trim (pipeline p fs) ≠ "" := by
    intro h
    have hchars := congrArg String.toList h
    rw [Text.trim, String.toList_ofList, trimChars_pipeline hp hne hfs] at hchars
    simp [hp.dropBlank_ne_nil] at hchars
  have hdispatching : c.activity.dispatching = false := by rw [hrest]; rfl
  obtain ⟨start, hstart⟩ : ∃ start, start = (c.submitting (Text.trim (pipeline p fs))).echo
    (Text.trim (pipeline p fs)) (Stage.ofText p).silent := ⟨_, rfl⟩
  have hactivity : start.activity = { Activity.rest with dispatching := true } := by
    rw [hstart, echo_activity (by show c.activity.capture = none; rw [hrest]; rfl)]
    show { c.activity with dispatching := true } = _
    rw [hrest]
  obtain ⟨f, gs, rfl⟩ := List.exists_cons_of_ne_nil hne
  rw [watchProducer, producerStart, watchStage_result (watchDeeper_result limit), ← hstart] at hd
  have hrun : runLine limit (Text.trim (pipeline p (f :: gs)))
      (c.submitting (Text.trim (pipeline p (f :: gs)))) =
        runStages (deeper limit) none ((f :: gs).map (·.text))
          (some (d.activity.capture.getD [])) d := by
    rw [runLine_eq, statements_pipeline hp hfs, runStatements]
    unfold runStatement
    rw [stages_pipeline hp hne hfs]
    dsimp only
    rw [ofText_trim, ← hstart, hactivity]
    show ((runStage (deeper limit) (.ofText (Text.trim p))
      ((start.withPiped none).withCapture (some []))).bind _).bind _ = _
    rw [ofText_trim, hd, Option.bind_some]
    exact Option.bind_fun_some _
  unfold execute executeWith
  dsimp only
  rw [if_neg hline, if_neg (by simp [hdispatching])]
  exact congrArg (Option.map settled) hrun

/-- **A pipeline puts on the display what its filters make of the captured lines, one after the
other**, behind what the producer has put there. If no filter asks for help, these are the lines
that the filters make of each other's lines exactly if there is one filter, or no captured line is
empty, or some filter is `grep`: otherwise the filters in the middle lose the empty lines. -/
theorem execute_pipeline (limit : Nat) (c : Console) (hrest : c.activity = .rest) (p : String)
    (hp : IsStage p) (fs : List Filter) (hne : fs ≠ []) (hfs : ∀ f ∈ fs, f.IsTyped) (d : Console)
    (hd : (c.watchProducer limit p fs).result = some d) (hfilters : d.HasFilters) :
    let ms := (c.watchProducer limit p fs).moments
    Produced (c.producerStart p fs) ms d ∧
      (∃ e before after, c.execute limit (pipeline p fs) = some e ∧
        e.output = d.output ++
          (before ++ ((Filter.printsAll fs (capturedIn ms)).map .info ++ after)) ∧
        (∀ l ∈ before ++ after, l = bufferFull) ∧
        (d.recorder.recording = false → before = [] ∧ after = [])) ∧
      (∀ f ∈ fs, ∀ ls, f.Meets ls (f.apply ls)) ∧
      ((∀ f ∈ fs, f.args ≠ ["/?"]) →
        (Filter.printsAll fs (capturedIn ms) = Filter.applyAll fs (capturedIn ms) ↔
          fs.length = 1 ∨ "" ∉ capturedIn ms ∨ ∃ f ∈ fs, f.isGrep = true)) := by
  intro ms
  have hdispatching : (c.producerStart p fs).activity.dispatching = true := by
    have hactivity := echo_activity (c := c.submitting (Text.trim (pipeline p fs)))
      (by show c.activity.capture = none; rw [hrest]; rfl) (Text.trim (pipeline p fs))
      (Stage.ofText p).silent
    exact congrArg Activity.dispatching hactivity
  have hproduced : Produced (c.producerStart p fs) ms d :=
    watched_producer hdispatching rfl limit _ hd
  refine ⟨hproduced, ?_, fun f _ ls => f.meets_apply ls, fun hhelp => ?_⟩
  · obtain ⟨e, before, after, he, houtput, hnotices⟩ := runStages_filters (deeper limit)
      (capturedIn ms) hne hfs hfilters
    refine ⟨e.settled, before, after, ?_, houtput, hnotices⟩
    rw [execute_pipeline_eq hrest hp hne hfs hd, hproduced.capture, Option.getD_some, he]
    rfl
  · exact Filter.printsAll_eq_applyAll_iff hne hfs hhelp
      fun l hl => newline_notMem_of_mem_capturedIn hl

/-- A console with a command that prints two lines, the first one empty. -/
def saying : Console :=
  ((Console.new {}).addCommand
    { name := "say", description := none, handler := fun _ => .info "\na" }).2

set_option maxRecDepth 10000 in
/-- The empty line is lost between the two filters. -/
theorem execute_pipeline_saying :
    (saying.execute 5 "say | sort | sort").map (fun e => e.output.map (·.message)) =
        some ["] say | sort | sort", "a"] ∧
      Filter.applyAll [.sort, .sort] ["", "a"] = ["", "a"] := by
  have hsorts : ∀ f ∈ [Filter.sort, Filter.sort], f.IsTyped := by
    intro f hf
    simp only [List.mem_cons, List.not_mem_nil, or_false, or_self] at hf
    subst hf
    trivial
  have hsay : "say".toList.any (fun c => c == statementSeparator || c == stageSeparator) = false :=
    by decide
  have hproducer : IsStage "say" :=
    ⟨by decide, fun c hc => Bool.eq_false_iff.mpr (List.any_eq_false.mp hsay c hc)⟩
  have htext : pipeline "say" [.sort, .sort] = "say | sort | sort" := by decide
  have hlines : capturedIn (saying.watchProducer 5 "say" [.sort, .sort]).moments = ["", "a"] := by
    decide +kernel
  obtain ⟨d, hd⟩ : ∃ d, (saying.watchProducer 5 "say" [.sort, .sort]).result = some d := ⟨_, rfl⟩
  have hstage : d.output.map (·.message) = ["] say | sort | sort"] ∧
      d.recorder.recording = false ∧ d.HasFilters := by
    obtain rfl := Option.some.inj hd
    exact ⟨rfl, rfl, rfl, rfl⟩
  obtain ⟨hecho, hrecording, hfilters⟩ := hstage
  obtain ⟨-, ⟨e, before, after, he, houtput, -, hoff⟩, -, -⟩ :=
    execute_pipeline 5 saying (by decide +kernel) "say" hproducer [.sort, .sort]
      (by simp) hsorts d hd hfilters
  obtain ⟨rfl, rfl⟩ := hoff hrecording
  have hsorted : Builtin.sortLines ["", "a"] = ["", "a"] :=
    List.mergeSort_of_pairwise (by decide +kernel)
  have hprinted : Filter.printsAll [.sort, .sort] ["", "a"] = ["a"] := by
    show Builtin.sortLines ((Builtin.sortLines ["", "a"]).flatMap Text.lines) = ["a"]
    rw [hsorted]
    exact List.mergeSort_singleton "a"
  constructor
  · rw [← htext, he, Option.map_some, houtput, List.map_append, hecho, hlines, hprinted]
    rfl
  · show Builtin.sortLines (Builtin.sortLines ["", "a"]) = ["", "a"]
    rw [hsorted, hsorted]

end Console

end DevConsole
