import DevConsole.Proofs.Pipeline.Typed
import DevConsole.Proofs.Run.Printed

/-!
# Filters as stages

A filter is handed lines and prints what it makes of them: in the last place as messages on the
display, in any other as lines of a capture (`runStage_filter`, `runStages_filters`). A capture takes
no line from an empty message, so all filters but the last one lose the empty lines. That makes a
difference exactly if there are several filters and no `grep` among them
(`printsAll_eq_applyAll_iff`).
-/

namespace DevConsole

/-- The notice that a recording has no more room. -/
def bufferFull : OutputLine := .warn "Script buffer is full, stop recording with 'stoprecord'"

namespace Filter

/-- The description of `grep`, which `grep /?` asks for. -/
def help : String :=
  ((Builtin.commands.find? (·.name == "grep")).bind (·.description)).getD ""

/-- What the filter prints if it is handed the lines. -/
def prints (f : Filter) (ls : List String) : List String :=
  if f.args = ["/?"] then [help] else f.apply ls

/-- What the last of several filters prints. -/
def printsAll : List Filter → List String → List String
  | [], ls => ls
  | [f], ls => f.prints ls
  | f :: g :: fs, ls => printsAll (g :: fs) ((f.prints ls).flatMap Text.lines)

theorem prints_eq_apply {f : Filter} (h : f.args ≠ ["/?"]) (ls : List String) :
    f.prints ls = f.apply ls := if_neg h

/-- A capture loses the empty lines. -/
theorem lines_apply {f : Filter} {ls : List String} (hls : ∀ l ∈ ls, '\n' ∉ l.toList) :
    (f.apply ls).flatMap Text.lines = f.apply (ls.filter (· ≠ "")) := by
  have hcapture : ∀ out : List String, (∀ l ∈ out, '\n' ∉ l.toList) →
      out.flatMap Text.lines = out.filter (· ≠ "") := by
    intro out hout
    induction out with
    | nil => rfl
    | cons l out ih =>
      rw [List.flatMap_cons, Text.lines_of_newline_notMem (hout l List.mem_cons_self),
        ih fun k hk => hout k (List.mem_cons_of_mem l hk)]
      by_cases hl : l = ""
      · rw [if_pos hl, List.filter_cons_of_neg (by simpa using hl), List.nil_append]
      · rw [if_neg hl, List.filter_cons_of_pos (by simpa using hl), List.singleton_append]
  rw [hcapture _ fun l hl => hls l (mem_of_mem_apply hl), filter_apply]

/-- Without empty lines nothing is lost. -/
theorem printsAll_of_no_empty : ∀ {fs : List Filter} {ls : List String},
    (∀ f ∈ fs, f.args ≠ ["/?"]) → (∀ l ∈ ls, '\n' ∉ l.toList) → "" ∉ ls →
      printsAll fs ls = applyAll fs ls
  | [], _, _, _, _ => rfl
  | [f], ls, hhelp, _, _ => prints_eq_apply (hhelp f List.mem_cons_self) ls
  | f :: g :: fs, ls, hhelp, hls, hempty => by
    have hfilter : ls.filter (· ≠ "") = ls :=
      List.filter_eq_self.mpr fun l hl => decide_eq_true fun h => hempty (h ▸ hl)
    rw [printsAll, prints_eq_apply (hhelp f List.mem_cons_self), lines_apply hls, hfilter]
    exact printsAll_of_no_empty (fun h hh => hhelp h (List.mem_cons_of_mem f hh))
      (fun l hl => hls l (mem_of_mem_apply hl)) fun h => hempty (mem_of_mem_apply h)

/-- Several filters print what they would make of the lines that are not empty. -/
theorem printsAll_cons_cons {f g : Filter} {fs : List Filter} {ls : List String}
    (hhelp : ∀ h ∈ f :: g :: fs, h.args ≠ ["/?"]) (hls : ∀ l ∈ ls, '\n' ∉ l.toList) :
    printsAll (f :: g :: fs) ls = applyAll (f :: g :: fs) (ls.filter (· ≠ "")) := by
  have hmem : ∀ {l}, l ∈ f.apply (ls.filter (· ≠ "")) → l ∈ ls ∧ l ≠ "" := fun hl => by
    simpa using mem_of_mem_apply hl
  rw [printsAll, prints_eq_apply (hhelp f List.mem_cons_self), lines_apply hls]
  exact printsAll_of_no_empty (fun h hh => hhelp h (List.mem_cons_of_mem f hh))
    (fun l hl => hls l (hmem hl).1) fun h => (hmem h).2 rfl

/-- **Filters print the lines that they make one after the other, unless an empty line is lost on
the way.** -/
theorem printsAll_eq_applyAll_iff {fs : List Filter} (hne : fs ≠ []) (hfs : ∀ f ∈ fs, f.IsTyped)
    (hhelp : ∀ f ∈ fs, f.args ≠ ["/?"]) {ls : List String} (hls : ∀ l ∈ ls, '\n' ∉ l.toList) :
    printsAll fs ls = applyAll fs ls ↔
      fs.length = 1 ∨ "" ∉ ls ∨ ∃ f ∈ fs, f.isGrep = true := by
  match fs, hne with
  | [f], _ =>
    refine ⟨fun _ => .inl rfl, fun _ => ?_⟩
    exact prints_eq_apply (hhelp f List.mem_cons_self) ls
  | f :: g :: fs, _ =>
    have hparts : ∀ part, grep part ∈ f :: g :: fs → part ≠ "" :=
      fun part hp => (hfs (grep part) hp).ne_empty
    have hlength : (f :: g :: fs).length ≠ 1 := by simp
    rw [printsAll_cons_cons hhelp hls, applyAll_nonempty_iff hparts ls]
    exact ⟨.inr, fun h => h.resolve_left hlength⟩

end Filter

namespace Console

/-! ### A filter as a stage -/

/-- The built-in filters are in place. -/
structure HasFilters (c : Console) : Prop where
  grep : c.commands.get? "grep" = Builtin.commands.find? (·.name == "grep")
  sort : c.commands.get? "sort" = Builtin.commands.find? (·.name == "sort")

/-- The stage printed the lines and nothing else but, with a recording on, that there is no more
room; the commands are the same, and a recording goes on. -/
structure StagePrinted (c : Console) (out : List String) (d : Console) : Prop where
  course : ∃ notices, (∀ l ∈ notices, l = bufferFull) ∧
    (c.recorder.recording = false → notices = []) ∧
    Course c (out.flatMap Text.lines) (c.uncaptured (out.map .info) ++ notices) [] d
  commands : d.commands = c.commands
  recording : d.recorder.recording = c.recorder.recording

@[simp] theorem toSink_commands (c : Console) (l : OutputLine) :
    (c.toSink l).commands = c.commands := by
  unfold toSink; split <;> rfl

@[simp] theorem toSink_recorder (c : Console) (l : OutputLine) :
    (c.toSink l).recorder = c.recorder := by
  unfold toSink; split <;> rfl

@[simp] theorem print_commands (c : Console) (level : Level) (message : String) :
    (c.print level message).commands = c.commands := by
  unfold print; split
  · rfl
  · exact toSink_commands c _

@[simp] theorem print_recorder (c : Console) (level : Level) (message : String) :
    (c.print level message).recorder = c.recorder := by
  unfold print; split
  · rfl
  · exact toSink_recorder c _

theorem capturedLines_info (out : List String) :
    capturedLines (out.map .info) = out.flatMap Text.lines := by
  have hall : (out.map OutputLine.info).filter (·.level.isCapturable) = out.map OutputLine.info :=
    List.filter_eq_self.mpr fun l hl => by
      obtain ⟨message, -, rfl⟩ := List.mem_map.mp hl
      rfl
  rw [capturedLines, hall, List.flatMap_map]
  rfl

theorem printed_infoAll (run : LineRunner) (c : Console) (out : List String) :
    ∃ d, runRoutine run (Routine.infoAll out) c = some d ∧
      Course c (out.flatMap Text.lines) (c.uncaptured (out.map .info)) [] d ∧
      d.commands = c.commands ∧ d.recorder = c.recorder := by
  have hrun : ∀ (out : List String) (c : Console), runRoutine run (Routine.infoAll out) c =
      some ((out.map OutputLine.info).foldl (fun c l => c.print l.level l.message) c) := by
    intro out
    induction out with
    | nil => exact fun c => rfl
    | cons message out ih => exact fun c => ih (c.print .info message)
  have hkept : ∀ (ls : List OutputLine) (c : Console),
      (ls.foldl (fun c l => c.print l.level l.message) c).commands = c.commands ∧
        (ls.foldl (fun c l => c.print l.level l.message) c).recorder = c.recorder := by
    intro ls
    induction ls with
    | nil => exact fun c => ⟨rfl, rfl⟩
    | cons l ls ih =>
      intro c
      obtain ⟨h1, h2⟩ := ih (c.print l.level l.message)
      exact ⟨h1.trans (print_commands ..), h2.trans (print_recorder ..)⟩
  have hcourse := course_printAll c (out.map .info)
  rw [capturedLines_info] at hcourse
  exact ⟨_, hrun out c, hcourse, hkept _ c⟩

theorem recordStage_notices (wasRecording : Bool) (text : String) (c : Console) :
    ∃ notices, (∀ l ∈ notices, l = bufferFull) ∧ (wasRecording = false → notices = []) ∧
      Course c [] notices [] (recordStage wasRecording text c) ∧
      (recordStage wasRecording text c).commands = c.commands ∧
      (recordStage wasRecording text c).recorder.recording = c.recorder.recording := by
  unfold recordStage
  split
  · next hon =>
    have hwas : wasRecording ≠ false := by
      rintro rfl
      simp at hon
    cases hr : c.recorder.record? text with
    | some recorder =>
      refine ⟨[], by simp, fun _ => rfl, .of_same ⟨rfl, rfl, rfl⟩, rfl, ?_⟩
      unfold Recorder.record? at hr
      split at hr
      · cases hr
      · obtain rfl := Option.some.inj hr
        rfl
    | none =>
      have hcourse : Course c (capturedLines [bufferFull]) (c.uncaptured [bufferFull]) []
          (c.warn bufferFull.message) := course_print c .warn bufferFull.message
      refine ⟨[bufferFull], by simp, fun h => absurd h hwas, ?_, print_commands .., ?_⟩
      · have hpast : c.uncaptured [bufferFull] = [bufferFull] := by
          simp [uncaptured, bufferFull, OutputLine.warn, Level.isCapturable]
        rw [hpast] at hcourse
        exact hcourse
      · exact congrArg Recorder.recording (print_recorder c .warn bufferFull.message)
  · exact ⟨[], by simp, fun _ => rfl, .of_same ⟨rfl, rfl, rfl⟩, rfl, rfl⟩

theorem runRoutine_perform (run : LineRunner) {c : Console} {o : Operation}
    {next : o.Answer → Routine} {answer : o.Answer} (h : (c.perform o).1 = answer) :
    runRoutine run (.perform o next) c = runRoutine run (next answer) (c.perform o).2 := by
  rw [runRoutine, h]

section Handlers
variable {c : Console} {ls : List String} (hpiped : c.activity.piped = some ls) (run : LineRunner)
include hpiped

theorem runRoutine_grep (args : Args) {part : String} (hargs : args.words = [part]) :
    runRoutine run (Builtin.grep args) c =
      runRoutine run (Routine.infoAll (Builtin.keepMatching part ls)) c.takePiped.2 := by
  have htake : c.takePiped.1 = some ls := hpiped
  have hget : args.get? 0 = some part := by rw [Args.get?, hargs]; rfl
  unfold Builtin.grep
  rw [hget]
  exact runRoutine_perform run (o := .takePiped) htake

theorem runRoutine_sort (args : Args) : runRoutine run (Builtin.sort args) c =
    runRoutine run (Routine.infoAll ((Filter.sortBy (args.integerOr 0 0)).apply ls))
      c.takePiped.2 := by
  have htake : c.takePiped.1 = some ls := hpiped
  exact runRoutine_perform run (o := .takePiped) htake

/-- What a filter calls. -/
theorem HasFilters.command (hc : c.HasFilters) (f : Filter) :
    ∃ k, c.commands.get? f.command = some k ∧
      (f.args = ["/?"] → k.description = some Filter.help) ∧
      ∀ raw, runRoutine run (k.handler { name := f.command, raw, words := f.args }) c =
        runRoutine run (Routine.infoAll (f.apply ls)) c.takePiped.2 := by
  have hgrep : Builtin.commands.find? (·.name == "grep") =
      some (Builtin.command "grep" Filter.help Builtin.grep) := rfl
  obtain ⟨description, hsort⟩ : ∃ description, Builtin.commands.find? (·.name == "sort") =
      some (Builtin.command "sort" description Builtin.sort) := ⟨_, rfl⟩
  cases f with
  | grep part =>
    exact ⟨_, hc.grep.trans hgrep, fun _ => rfl,
      fun raw => runRoutine_grep hpiped run (Args.mk "grep" raw [part]) rfl⟩
  | sort =>
    have happly : (Filter.sortBy 0).apply ls = Filter.sort.apply ls := by
      show (if (0 : Int32) < 0 then (Builtin.sortLines ls).reverse else Builtin.sortLines ls) = _
      rw [if_neg (by decide)]
      rfl
    refine ⟨_, hc.sort.trans hsort, fun h => (by cases h), fun raw => ?_⟩
    rw [← happly]
    exact runRoutine_sort hpiped run (Args.mk "sort" raw [])
  | sortBy order =>
    refine ⟨_, hc.sort.trans hsort, fun h => ?_, fun raw => ?_⟩
    · have hread := Number.integer?_integerText order
      have htext : Number.integerText order = "/?" := (List.cons.inj h).1
      rw [htext] at hread
      simp [Number.integer?, Number.splitSign, Number.isDigit] at hread
    · have horder : (Args.mk "sort" raw [Number.integerText order]).integerOr 0 0 = order := by
        show (Number.integer? (Number.integerText order)).getD 0 = order
        rw [Number.integer?_integerText]
        rfl
      have hrun := runRoutine_sort hpiped run (Args.mk "sort" raw [Number.integerText order])
      rw [horder] at hrun
      exact hrun

/-- **A filter prints what it makes of the lines it is handed.** -/
theorem runStage_filter (hc : c.HasFilters) {f : Filter} (hf : f.IsTyped) :
    ∃ d, runStage run (.ofText f.text) c = some d ∧ c.StagePrinted (f.prints ls) d := by
  obtain ⟨k, hk, hdescription, hhandler⟩ := hc.command hpiped run f
  obtain ⟨args, hargs⟩ : ∃ args : Args,
      args = { name := f.command, raw := f.text, words := f.args } := ⟨_, rfl⟩
  -- the call prints the lines; what remains is the recording
  have hcall : ∃ d, callCommand run k args c = some d ∧
      Course c ((f.prints ls).flatMap Text.lines) (c.uncaptured ((f.prints ls).map .info)) [] d ∧
      d.commands = c.commands ∧ d.recorder = c.recorder := by
    unfold callCommand
    subst hargs
    dsimp only
    split
    · next hhelp =>
      rw [hdescription hhelp, Filter.prints, if_pos hhelp]
      have hcourse : Course c (capturedLines ([Filter.help].map .info))
          (c.uncaptured ([Filter.help].map .info)) [] (c.info Filter.help) :=
        course_print c .info Filter.help
      rw [capturedLines_info] at hcourse
      exact ⟨_, rfl, hcourse, print_commands .., print_recorder ..⟩
    · next hhelp =>
      rw [hhandler, Filter.prints, if_neg hhelp]
      obtain ⟨d, hrun, hcourse, hcommands, hrecorder⟩ :=
        printed_infoAll run c.takePiped.2 (f.apply ls)
      have htaken : Course c [] [] [] c.takePiped.2 :=
        ⟨rfl, rfl, by simp [takePiped], by simp [takePiped]⟩
      exact ⟨d, hrun, htaken.trans hcourse, hcommands, hrecorder⟩
  obtain ⟨d, hd, hcourse, hcommands, hrecorder⟩ := hcall
  obtain ⟨notices, hnotices, hoff, hrecord, hcommands', hrecording⟩ :=
    recordStage_notices c.recorder.recording f.text d
  refine ⟨_, ?_, ⟨notices, hnotices, hoff, ?_⟩, hcommands'.trans hcommands, ?_⟩
  · rw [Filter.ofText_text hf]
    unfold runStage dispatch
    simp only [Stage.head?, Stage.args, List.head?_cons, List.tail_cons, hk, ← hargs, hd,
      Option.map_some, if_true]
  · have h := hcourse.trans hrecord
    rw [List.append_nil, List.append_nil] at h
    exact h
  · rw [hrecording, hrecorder]

end Handlers

/-- The last filter prints on the display. -/
theorem runStages_last (run : LineRunner) {f : Filter} (ls : List String) {c : Console}
    (hf : f.IsTyped) (hc : c.HasFilters) :
    ∃ d notices, runStages run none [f.text] (some ls) c = some d ∧
      d.output = c.output ++ ((f.prints ls).map .info ++ notices) ∧
      (∀ l ∈ notices, l = bufferFull) ∧ (c.recorder.recording = false → notices = []) := by
  obtain ⟨start, hstart⟩ : ∃ start, start = (c.withPiped (some ls)).withCapture none := ⟨_, rfl⟩
  have hpiped : start.activity.piped = some ls := by rw [hstart]; rfl
  have hfilters : start.HasFilters := by rw [hstart]; exact ⟨hc.grep, hc.sort⟩
  obtain ⟨d, hd, hprinted⟩ := runStage_filter hpiped run hfilters hf
  obtain ⟨notices, hnotices, hoff, hcourse⟩ := hprinted.course
  refine ⟨d.withPiped none, notices, ?_, ?_, hnotices, ?_⟩
  · show (runStage run (.ofText f.text) ((c.withPiped (some ls)).withCapture none)).map _ = _
    rw [← hstart, hd]
    rfl
  · have hall : start.uncaptured ((f.prints ls).map .info) = (f.prints ls).map .info := by
      simp [uncaptured, hstart, withCapture]
    have houtput := hcourse.output
    rw [hall, hstart] at houtput
    exact houtput.symm
  · rw [hstart] at hoff
    exact hoff

/-- A filter before others prints into the capture. -/
theorem runStages_middle (run : LineRunner) {f : Filter} (g : Filter) (fs : List Filter)
    (ls : List String) {c : Console} (hf : f.IsTyped) (hc : c.HasFilters) :
    ∃ d notices, runStages run none ((f :: g :: fs).map (·.text)) (some ls) c =
        runStages run none ((g :: fs).map (·.text)) (some ((f.prints ls).flatMap Text.lines)) d ∧
      d.HasFilters ∧ d.recorder.recording = c.recorder.recording ∧
      d.output = c.output ++ notices ∧ (∀ l ∈ notices, l = bufferFull) ∧
      (c.recorder.recording = false → notices = []) := by
  obtain ⟨start, hstart⟩ : ∃ start, start = (c.withPiped (some ls)).withCapture (some []) := ⟨_, rfl⟩
  have hpiped : start.activity.piped = some ls := by rw [hstart]; rfl
  have hfilters : start.HasFilters := by rw [hstart]; exact ⟨hc.grep, hc.sort⟩
  obtain ⟨d, hd, hprinted⟩ := runStage_filter hpiped run hfilters hf
  obtain ⟨notices, hnotices, hoff, hcourse⟩ := hprinted.course
  have hrecording := hprinted.recording
  refine ⟨d, notices, ?_, ?_, ?_, ?_, hnotices, ?_⟩
  · have hcapture : d.activity.capture.getD [] = (f.prints ls).flatMap Text.lines := by
      rw [hcourse.capture, hstart]
      rfl
    show (runStage run (.ofText f.text) ((c.withPiped (some ls)).withCapture (some []))).bind _ = _
    rw [← hstart, hd, Option.bind_some, hcapture]
  · exact ⟨hprinted.commands ▸ hfilters.grep, hprinted.commands ▸ hfilters.sort⟩
  · rw [hrecording, hstart]
    rfl
  · have hnone : start.uncaptured ((f.prints ls).map .info) = [] := by
      refine List.filter_eq_nil_iff.mpr fun l hl => ?_
      obtain ⟨message, -, rfl⟩ := List.mem_map.mp hl
      simp [hstart, withCapture, OutputLine.info, Level.isCapturable]
    have houtput := hcourse.output
    rw [hnone, hstart] at houtput
    exact houtput.symm
  · rw [hstart] at hoff
    exact hoff

/-- **The last of several filters prints on the display**, each on the lines that the one before it
has printed. -/
theorem runStages_filters (run : LineRunner) {fs : List Filter} (ls : List String) {c : Console}
    (hne : fs ≠ []) (hfs : ∀ f ∈ fs, f.IsTyped) (hc : c.HasFilters) :
    ∃ d before after, runStages run none (fs.map (·.text)) (some ls) c = some d ∧
      d.output = c.output ++ (before ++ ((Filter.printsAll fs ls).map .info ++ after)) ∧
      (∀ l ∈ before ++ after, l = bufferFull) ∧
      (c.recorder.recording = false → before = [] ∧ after = []) := by
  induction fs generalizing ls c with
  | nil => exact absurd rfl hne
  | cons f fs ih =>
    have hf := hfs f List.mem_cons_self
    cases fs with
    | nil =>
      obtain ⟨d, notices, hd, houtput, hnotices, hoff⟩ := runStages_last run ls hf hc
      exact ⟨d, [], notices, hd, houtput, hnotices, fun h => ⟨rfl, hoff h⟩⟩
    | cons g fs =>
      obtain ⟨d, notices, hrun, hfilters, hrecording, houtput, hnotices, hoff⟩ :=
        runStages_middle run g fs ls hf hc
      obtain ⟨e, before, after, he, houtput', hall, hoff'⟩ :=
        ih _ (List.cons_ne_nil g fs) (fun h hh => hfs h (List.mem_cons_of_mem f hh)) hfilters
      refine ⟨e, notices ++ before, after, hrun.trans he, ?_, ?_, fun h => ?_⟩
      · rw [houtput', houtput, List.append_assoc, List.append_assoc]
        rfl
      · intro l hl
        rw [List.append_assoc] at hl
        exact (List.mem_append.mp hl).elim (hnotices l) (hall l)
      · obtain ⟨h1, h2⟩ := hoff' (hrecording.trans h)
        exact ⟨by rw [hoff h, h1]; rfl, h2⟩

end Console

end DevConsole
