import DevConsole.Proofs.Run.Law

/-!
# What a run prints

What an operation prints are its messages (`messages`), which are read off the console without
printing them. Around a capture the lines of the messages that can be captured go there, and all
other messages go to the display; the display loses only what an operation takes from it. `Course`
says this of a console before and a console after, `course_perform` of every operation, and
`course_law` of every run inside a submitted line: the capture of a stage grows by the lines of the
messages printed in it, less those of the producers inside it, which have captures of their own, and
nothing is added to the history.
-/

namespace DevConsole

/-- The lines that a capture takes from messages. -/
def capturedLines (ls : List OutputLine) : List String :=
  (ls.filter (·.level.isCapturable)).flatMap fun l => Text.lines l.message

theorem capturedLines_append (ls ls' : List OutputLine) :
    capturedLines (ls ++ ls') = capturedLines ls ++ capturedLines ls' := by
  simp [capturedLines]

namespace Console

/-- The messages that go past a capture. -/
def uncaptured (c : Console) (ls : List OutputLine) : List OutputLine :=
  ls.filter fun l => c.activity.capture.isNone || !l.level.isCapturable

/-! ### The course of a console -/

/-- The consoles have the same history, are in the middle of the same, and show the same. -/
structure Same (c d : Console) : Prop where
  history : d.history = c.history
  activity : d.activity = c.activity
  output : d.output = c.output

/-- From the first console to the second, `captured` was added to the capture, if there is one,
`shown` was put on the display, and `drained` was taken from it. -/
structure Course (c : Console) (captured : List String) (shown drained : List OutputLine)
    (d : Console) : Prop where
  history : d.history = c.history
  dispatching : d.activity.dispatching = c.activity.dispatching
  capture : d.activity.capture = c.activity.capture.map (· ++ captured)
  output : c.output ++ shown = drained ++ d.output

namespace Course

variable {c d e : Console} {captured captured' : List String}
  {shown shown' drained drained' : List OutputLine}

/-- Nothing that counts was changed. -/
theorem of_same (h : Same c d) : Course c [] [] [] d :=
  ⟨h.history, by rw [h.activity], by rw [h.activity]; simp, by simp [h.output]⟩

theorem trans (h : Course c captured shown drained d) (h' : Course d captured' shown' drained' e) :
    Course c (captured ++ captured') (shown ++ shown') (drained ++ drained') e where
  history := h'.history.trans h.history
  dispatching := h'.dispatching.trans h.dispatching
  capture := by rw [h'.capture, h.capture]; cases c.activity.capture <;> simp
  output := by rw [← List.append_assoc, h.output, List.append_assoc, h'.output, List.append_assoc]

theorem capture_isNone (h : Course c captured shown drained d) :
    d.activity.capture.isNone = c.activity.capture.isNone := by
  rw [h.capture]; cases c.activity.capture <;> rfl

end Course

/-! ### Printing -/

theorem same_toSink (c : Console) (l : OutputLine) : Same c (c.toSink l) := by
  unfold toSink
  split <;> exact ⟨rfl, rfl, rfl⟩

theorem course_print (c : Console) (level : Level) (message : String) :
    Course c (capturedLines [⟨level, message⟩]) (c.uncaptured [⟨level, message⟩]) []
      (c.print level message) := by
  obtain ⟨h1, h2, h3⟩ := same_toSink c ⟨level, message⟩
  unfold print
  split
  · next ls hc hl =>
    refine ⟨rfl, rfl, ?_, ?_⟩
    · simp [capturedLines, hc, hl]
    · simp [uncaptured, hc, hl]
  · next hor =>
    have hpast : (c.activity.capture.isNone || !level.isCapturable) = true := by
      cases hc : c.activity.capture with
      | none => rfl
      | some ls =>
        cases hl : level.isCapturable with
        | false => rfl
        | true => exact absurd hl (hor ls hc)
    refine ⟨h1, by rw [display, h2], ?_, ?_⟩
    · rw [display, h2]
      cases hc : c.activity.capture with
      | none => rfl
      | some ls =>
        have hl : level.isCapturable = false := by simpa [hc] using hpast
        simp [capturedLines, hl]
    · simpa [uncaptured, display, h3] using hpast

/-- Messages printed one after the other. -/
theorem course_printAll (c : Console) : ∀ ls : List OutputLine,
    Course c (capturedLines ls) (c.uncaptured ls) []
      (ls.foldl (fun c l => c.print l.level l.message) c)
  | [] => .of_same ⟨rfl, rfl, rfl⟩
  | l :: ls => by
    have h := course_print c l.level l.message
    have ih := course_printAll (c.print l.level l.message) ls
    have huncaptured : (c.print l.level l.message).uncaptured ls = c.uncaptured ls := by
      unfold uncaptured; rw [h.capture_isNone]
    rw [huncaptured] at ih
    have happ : capturedLines (l :: ls) = capturedLines [l] ++ capturedLines ls :=
      capturedLines_append [l] ls
    have happ' : c.uncaptured (l :: ls) = c.uncaptured [l] ++ c.uncaptured ls :=
      List.filter_append (p := _) [l] ls
    rw [List.foldl_cons, happ, happ']
    exact h.trans ih

/-! ### Operations that print nothing -/

theorem same_withName {α : Type} {c : Console} {act : Except ConsoleError α × Console}
    (h : Same c act.2) (name : String) (kind : EntryKind) :
    Same c (c.withName name kind act).2 := by
  unfold withName
  split
  · exact ⟨rfl, rfl, rfl⟩
  · exact h

theorem same_registerVariable (c : Console) (v : Variable) : Same c (c.registerVariable v).2 := by
  refine same_withName ?_ _ _
  cases c.vars.register v with
  | error e => exact ⟨rfl, rfl, rfl⟩
  | ok r => dsimp only; split <;> exact ⟨rfl, rfl, rfl⟩

theorem same_createVariable (c : Console) (name : String) (value : Value) (flags : Flags) :
    Same c (c.createVariable name value flags).2 := by
  refine same_withName ?_ _ _
  split <;> exact ⟨rfl, rfl, rfl⟩

theorem same_setAlias (c : Console) (name value : String) : Same c (c.setAlias name value).2 := by
  refine same_withName ?_ _ _
  split <;> exact ⟨rfl, rfl, rfl⟩

theorem same_addCommand (c : Console) (k : Command Handler) : Same c (c.addCommand k).2 := by
  refine same_withName ?_ _ _
  split <;> exact ⟨rfl, rfl, rfl⟩

theorem same_setVariable (c : Console) (name : String) (value : Value) :
    Same c (c.setVariable name value).2 := by
  unfold setVariable
  split <;> exact ⟨rfl, rfl, rfl⟩

/-- What was loaded is in the store; besides it only the log has grown. -/
theorem takeLoaded_ok (c : Console) (l : Config.Loaded) : c.takeLoaded (.ok l) =
    (.ok l.count,
      { c with
        vars := l.store
        log := c.log ++ l.skipped.map fun token =>
          LogRecord.own .config .debug ("skipping unknown config token '" ++ token ++ "'") }) := by
  have hlog : ∀ (skipped : List String) (d : Console), skipped.foldl
      (fun d token => d.note .config .debug ("skipping unknown config token '" ++ token ++ "'")) d =
        { d with
          log := d.log ++ skipped.map fun token =>
            LogRecord.own .config .debug ("skipping unknown config token '" ++ token ++ "'") } := by
    intro skipped
    induction skipped with
    | nil => exact fun d => by rw [List.map_nil, List.append_nil]; rfl
    | cons token skipped ih => exact fun d => by rw [List.foldl_cons, ih]; simp [note]
  rw [takeLoaded, hlog]

theorem same_takeLoaded (c : Console) (x : Except ConsoleError Config.Loaded) :
    Same c (c.takeLoaded x).2 := by
  cases x with
  | error e => exact ⟨rfl, rfl, rfl⟩
  | ok l =>
    rw [takeLoaded_ok]
    exact ⟨rfl, rfl, rfl⟩

theorem same_choose (c : Console) (step : Completion.Step) : Same c (c.choose step).2 := by
  unfold choose
  split <;> exact ⟨rfl, rfl, rfl⟩

end Console

/-- The operations that neither print nor touch the display or the lines of the stage before. -/
def Operation.isSilent : Operation → Bool
  | .print .. | .display .. | .takePiped | .takeOutput | .assign .. | .complete .. | .cycle _ => false
  | _ => true

namespace Console

theorem same_perform {o : Operation} (ho : o.isSilent = true) (c : Console) :
    Same c (c.perform o).2 := by
  cases o with
  | print | display | takePiped | takeOutput | assign | complete | cycle => cases ho
  | registerVariable v => exact same_registerVariable c v
  | createVariable name value flags => exact same_createVariable c name value flags
  | setVariable name value => exact same_setVariable c name value
  | setAlias name value => exact same_setAlias c name value
  | choose step => exact same_choose c step
  | loadConfig path => exact same_takeLoaded c _
  | loadText text path => exact same_takeLoaded c _
  | note | setEcho | setSink | requestClear | takeChanges | takeClear | edit | startRecording
  | stopRecording => exact ⟨rfl, rfl, rfl⟩
  | unregisterVariable h =>
    simp only [perform, unregisterVariable]
    split <;> exact ⟨rfl, rfl, rfl⟩
  | resetVariable name =>
    simp only [perform, resetVariable]
    split <;> exact ⟨rfl, rfl, rfl⟩
  | removeAlias name =>
    simp only [perform, removeAlias]
    split <;> exact ⟨rfl, rfl, rfl⟩
  | removeCommand name =>
    simp only [perform, removeCommand]
    split <;> exact ⟨rfl, rfl, rfl⟩
  | recallLine back =>
    simp only [perform, recallLine]
    split <;> exact ⟨rfl, rfl, rfl⟩
  | writeScript path =>
    simp only [perform, writeScript]
    split <;> exact ⟨rfl, rfl, rfl⟩
  | saveConfig path mode =>
    simp only [perform, saveConfig]
    split <;> exact ⟨rfl, rfl, rfl⟩

/-! ### Messages -/

/-- The notices that follow a write to a variable with the flags. -/
def writeNotices (name : String) (flags : Flags) : List OutputLine :=
  (if flags.has .latch then [.info (name ++ " will be changed upon restart")] else []) ++
    if flags.has .debug then
      [.warn (name ++ " is a debug variable, changing it may destabilize the application")]
    else []

/-- What an assignment has to say. -/
def assignMessages (c : Console) (name : String) : List OutputLine :=
  match c.vars.get? name with
  | none => [.error ("Unknown variable: " ++ name)]
  | some v =>
    if v.flags.has .system then
      [.warn (v.name ++ " is a system variable and can't be changed from the console")]
    else if v.flags.has .cheat && c.vars.int cheatsName == 0 then
      [.warn (v.name ++ " is cheat protected, set " ++ cheatsName ++ " 1 first")]
    else writeNotices v.name v.flags

/-- The candidates of a completion, if there are several to be displayed. -/
def completionMessages (c : Console) (part : String) (display : Bool) : List OutputLine :=
  let names := candidates c.commands c.vars c.aliases (String.ofList (splitLastWord part.toList).2)
  if display && 1 < names.length then
    names.map fun name => { level := .result, message := "  " ++ name }
  else []

/-- What a press of the completion key displays: candidates, unless it goes on to another one. -/
def cycleMessages (c : Console) : List OutputLine :=
  if 1 < c.completion.candidates.length && c.lastCompleted == some c.line.text then []
  else c.completionMessages c.line.text true

/-- The messages that an operation prints, one by one. -/
def messages (c : Console) : Operation → List OutputLine
  | .print level message => [⟨level, message⟩]
  | .assign name _ => c.assignMessages name
  | .complete part display _ => c.completionMessages part display
  | .cycle _ => c.cycleMessages
  | _ => []

/-! ### Operations that print -/

theorem Same.uncaptured {c d : Console} (h : Same c d) (ls : List OutputLine) :
    d.uncaptured ls = c.uncaptured ls := by
  unfold Console.uncaptured; rw [h.activity]

theorem Course.uncaptured {c d : Console} {captured : List String}
    {shown drained : List OutputLine} (h : Course c captured shown drained d)
    (ls : List OutputLine) : d.uncaptured ls = c.uncaptured ls := by
  unfold Console.uncaptured; rw [h.capture_isNone]

/-- One message after another. -/
theorem Course.print {c d : Console} {ls : List OutputLine}
    (h : Course c (capturedLines ls) (c.uncaptured ls) [] d) (level : Level) (message : String) :
    Course c (capturedLines (ls ++ [⟨level, message⟩])) (c.uncaptured (ls ++ [⟨level, message⟩]))
      [] (d.print level message) := by
  have h' := course_print d level message
  rw [h.uncaptured] at h'
  rw [capturedLines_append, Console.uncaptured, List.filter_append]
  exact h.trans h'

theorem course_afterWrite (c : Console) (name : String) (flags : Flags) :
    Course c (capturedLines (writeNotices name flags)) (c.uncaptured (writeNotices name flags)) []
      (c.afterWrite name flags) := by
  have hsame : Course c (capturedLines []) (c.uncaptured []) [] c := .of_same ⟨rfl, rfl, rfl⟩
  unfold afterWrite writeNotices
  cases flags.has .latch <;> cases flags.has .debug
  · exact hsame
  · exact hsame.print _ _
  · exact hsame.print _ _
  · exact (hsame.print _ _).print _ _

theorem course_assign (c : Console) (name value : String) :
    Course c (capturedLines (c.assignMessages name)) (c.uncaptured (c.assignMessages name)) []
      (c.assign name value).2 := by
  have hsame : Course c (capturedLines []) (c.uncaptured []) [] c := .of_same ⟨rfl, rfl, rfl⟩
  unfold Console.assign assignMessages
  cases c.vars.get? name with
  | none => exact hsame.print .error _
  | some v =>
    dsimp only
    cases v.flags.has .system with
    | true => exact hsame.print .warn _
    | false =>
      cases v.flags.has .cheat && c.vars.int cheatsName == 0 with
      | true => exact hsame.print .warn _
      | false =>
        have hset := same_setVariable c v.name (.text value)
        have hafter := course_afterWrite (c.setVariable v.name (.text value)).2 v.name v.flags
        rw [hset.uncaptured] at hafter
        have hrun := (Course.of_same hset).trans hafter
        exact ⟨hrun.history, hrun.dispatching, hrun.capture, hrun.output⟩

theorem course_complete (c : Console) (part : String) (display auto : Bool) :
    Course c (capturedLines (c.completionMessages part display))
      (c.uncaptured (c.completionMessages part display)) [] (c.complete part display auto).2 := by
  obtain ⟨names, hnames⟩ : ∃ names, names = candidates c.commands c.vars c.aliases
    (String.ofList (splitLastWord part.toList).2) := ⟨_, rfl⟩
  unfold Console.complete completionMessages
  dsimp only
  rw [← hnames]
  obtain ⟨ls, hls⟩ : ∃ ls : List OutputLine, ls = if display && 1 < names.length then
    names.map (fun name => { level := .result, message := "  " ++ name }) else [] := ⟨_, rfl⟩
  rw [← hls]
  have hprinted : Course c (capturedLines ls) (c.uncaptured ls) []
      (if display && 1 < names.length then
        names.foldl (fun c name => c.print .result ("  " ++ name)) c else c) := by
    split
    · next h =>
      rw [hls, if_pos h]
      have hall := course_printAll c
        (names.map fun name => { level := .result, message := "  " ++ name })
      rwa [List.foldl_map] at hall
    · next h =>
      rw [hls, if_neg h]
      exact .of_same ⟨rfl, rfl, rfl⟩
  split <;> exact ⟨hprinted.history, hprinted.dispatching, hprinted.capture, hprinted.output⟩

theorem course_cycle (c : Console) (reverse : Bool) :
    Course c (capturedLines c.cycleMessages) (c.uncaptured c.cycleMessages) []
      (c.cycle reverse).2 := by
  unfold Console.cycle cycleMessages
  dsimp only
  split
  · have hstep := Course.of_same (same_choose c (if reverse then .prev else .next))
    exact ⟨hstep.history, hstep.dispatching, hstep.capture, hstep.output⟩
  · have hstep := course_complete c c.line.text true true
    exact ⟨hstep.history, hstep.dispatching, hstep.capture, hstep.output⟩

/-! ### All operations -/

/-- What an operation puts on the display. -/
def shown (c : Console) : Operation → List OutputLine
  | .display level message => [⟨level, message⟩]
  | o => c.uncaptured (c.messages o)

/-- What an operation takes from the display. -/
def drained (c : Console) : Operation → List OutputLine
  | .takeOutput => c.output
  | _ => []

/-- **An operation captures, shows and drains what is said of it.** -/
theorem course_perform (c : Console) (o : Operation) :
    Course c (capturedLines (c.messages o)) (c.shown o) (c.drained o) (c.perform o).2 := by
  cases hsilent : o.isSilent with
  | true =>
    have hsame := Course.of_same (same_perform hsilent c)
    cases o with
    | print | display | takePiped | takeOutput | assign | complete | cycle => cases hsilent
    | _ => exact hsame
  | false =>
    cases o with
    | print level message => exact course_print c level message
    | display level message =>
      exact ⟨rfl, rfl, by simp [perform, display, messages, capturedLines], rfl⟩
    | takePiped =>
      exact ⟨rfl, rfl, by simp [perform, takePiped, messages, capturedLines],
        by simp [perform, takePiped, shown, messages, uncaptured, drained]⟩
    | takeOutput =>
      exact ⟨rfl, rfl, by simp [perform, takeOutput, messages, capturedLines],
        by simp [perform, takeOutput, shown, messages, uncaptured, drained]⟩
    | assign name value => exact course_assign c name value
    | complete part display auto => exact course_complete c part display auto
    | cycle reverse => exact course_cycle c reverse
    | _ => cases hsilent

end Console

/-! ### Moments -/

namespace Moment

/-- The lines that the moment adds to the capture of the run it belongs to. -/
def captured (m : Moment) : List String :=
  if .producer ∈ m.scopes then []
  else
    match m.act with
    | .operation o => capturedLines (m.console.messages o)
    | .execute _ => []

/-- What the moment puts on the display. -/
def shown (m : Moment) : List OutputLine :=
  match m.act with
  | .operation o => m.console.shown o
  | .execute _ => []

/-- What the moment takes from the display. -/
def drained (m : Moment) : List OutputLine :=
  match m.act with
  | .operation o => m.console.drained o
  | .execute _ => []

end Moment

/-- The lines that a run adds to its capture. -/
def capturedIn (ms : List Moment) : List String := ms.flatMap (·.captured)

/-- What a run puts on the display. -/
def shownIn (ms : List Moment) : List OutputLine := ms.flatMap (·.shown)

/-- What a run takes from the display. -/
def drainedIn (ms : List Moment) : List OutputLine := ms.flatMap (·.drained)

theorem capturedIn_append (ms ms' : List Moment) :
    capturedIn (ms ++ ms') = capturedIn ms ++ capturedIn ms' := List.flatMap_append

/-- A producer's messages go into its own capture. -/
theorem capturedIn_producer (ms : List Moment) : capturedIn (ms.map (·.inside .producer)) = [] := by
  rw [capturedIn, List.flatMap_map]
  exact List.flatMap_eq_nil_iff.mpr fun m _ => if_pos List.mem_cons_self

theorem capturedIn_inside {s : Scope} (hs : s ≠ .producer) (ms : List Moment) :
    capturedIn (ms.map (·.inside s)) = capturedIn ms := by
  rw [capturedIn, List.flatMap_map, capturedIn]
  refine congrArg (List.flatMap · ms) (funext fun m => ?_)
  simp [Moment.captured, Moment.inside, hs.symm]

theorem shownIn_inside (s : Scope) (ms : List Moment) :
    shownIn (ms.map (·.inside s)) = shownIn ms := by
  rw [shownIn, List.flatMap_map]; rfl

theorem drainedIn_inside (s : Scope) (ms : List Moment) :
    drainedIn (ms.map (·.inside s)) = drainedIn ms := by
  rw [drainedIn, List.flatMap_map]; rfl

namespace Console

/-! ### Runs inside a submitted line -/

/-- The run takes the course of its moments. -/
def Follows (c : Console) (x : Watched Console) : Prop :=
  c.activity.dispatching = true → ∀ d, x.result = some d →
    Course c (capturedIn x.moments) (shownIn x.moments) (drainedIn x.moments) d

/-- **Inside a submitted line a run takes the course of its moments.** -/
theorem course_law : Law Follows where
  done c _ d hd := by
    obtain rfl : c = d := Option.some.inj hd
    exact .of_same ⟨rfl, rfl, rfl⟩
  stuck c _ d hd := by cases hd
  bind c x f hx hf hc e he := by
    obtain ⟨d, hd, he⟩ := Watched.result_bind_eq_some.mp he
    have h1 := hx hc d hd
    have h2 := hf d hd (h1.dispatching.trans hc) e he
    rw [Watched.moments_bind_of_some hd, capturedIn_append, shownIn, List.flatMap_append, drainedIn,
      List.flatMap_append]
    exact h1.trans h2
  operation c o _ d hd := by
    obtain rfl : (c.perform o).2 = d := Option.some.inj hd
    have h := course_perform c o
    simpa [watchOperation, capturedIn, shownIn, drainedIn, Moment.captured, Moment.shown,
      Moment.drained] using h
  call c line _ d hd := by
    obtain rfl : c = d := Option.some.inj hd
    exact .of_same ⟨rfl, rfl, rfl⟩
  addCommand c k _ d hd := by
    obtain rfl : (c.addCommand k).2 = d := Option.some.inj hd
    exact .of_same (same_addCommand c k)
  takeLine c _ d hd := by
    obtain rfl : c.withLineTaken = d := Option.some.inj hd
    exact .of_same ⟨rfl, rfl, rfl⟩
  record c text recorder _ _ d hd := by
    obtain rfl : { c with recorder } = d := Option.some.inj hd
    exact .of_same ⟨rfl, rfl, rfl⟩
  piped c piped _ d hd := by
    obtain rfl : c.withPiped piped = d := Option.some.inj hd
    have h : Course c [] [] [] (c.withPiped piped) :=
      ⟨rfl, rfl, by simp [withPiped], by simp [withPiped]⟩
    exact h
  submission c line x hd _ hc := by rw [hd] at hc; cases hc
  producer c x hx hc e he := by
    obtain ⟨d, hd, rfl⟩ := Option.map_eq_some_iff.mp he
    have h := hx hc d hd
    refine ⟨h.history, h.dispatching, ?_, ?_⟩
    · rw [Watched.moments_map, Watched.moments_within, capturedIn_producer]
      simp [withCapture]
    · rw [Watched.moments_map, Watched.moments_within, shownIn_inside, drainedIn_inside]
      exact h.output
  expansion c x _ hx hc e he := by
    obtain ⟨d, hd, rfl⟩ := Option.map_eq_some_iff.mp he
    have h := hx hc d hd
    rw [Watched.moments_map, Watched.moments_within, capturedIn_inside (by decide), shownIn_inside,
      drainedIn_inside]
    split <;> exact ⟨h.history, h.dispatching, h.capture, h.output⟩
  script c x _ hx hc e he := by
    obtain ⟨d, hd, rfl⟩ := Option.map_eq_some_iff.mp he
    have h := hx hc d hd
    rw [Watched.moments_map, Watched.moments_within, capturedIn_inside (by decide), shownIn_inside,
      drainedIn_inside]
    exact ⟨h.history, h.dispatching, h.capture, h.output⟩

end Console

end DevConsole
