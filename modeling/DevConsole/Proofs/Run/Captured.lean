import DevConsole.Proofs.Pipeline.Run
import DevConsole.Proofs.Run.Handing
import DevConsole.Proofs.Run.Rest

/-!
# Captured stages

While a stage runs whose output is captured for the next one, there is a capture at every moment of
a submitted line, however deep what runs is nested (`capturesInside_law`). So a printed message goes
to a capture and neither to the display nor to the sink, but for warnings and errors, which go to
both and to no capture (`diverted_perform`). What the stage hands to the next one is what it and all
that it runs have added to its own capture; the producers of pipelines inside it have captures of
their own (`handsOver_law`). The next stage starts with these lines piped (`handsOn_law`).
-/

namespace DevConsole

/-- The messages that no capture takes. -/
def loud (ls : List OutputLine) : List OutputLine := ls.filter fun l => !l.level.isCapturable

/-- A message of the level is printed. -/
def Act.prints (level : Level) : Act → Bool
  | .operation (.print l _) => l == level
  | .operation _ | .execute _ => false

theorem Act.exists_of_prints {level : Level} {a : Act} (h : a.prints level = true) :
    ∃ message, a = .operation (.print level message) := by
  unfold Act.prints at h
  split at h
  · next message => exact ⟨message, by rw [eq_of_beq h]⟩
  · cases h
  · cases h

/-- The stage hands the lines over. -/
def Part.hands (text : String) (lines : List String) : Part → Bool
  | .stage t _ (some ls) => t == text && ls == lines
  | .stage _ _ none | .statement _ => false

theorem Part.exists_of_hands {text : String} {lines : List String} {p : Part}
    (h : p.hands text lines = true) : ∃ ms, p = .stage text ms (some lines) := by
  unfold Part.hands at h
  split at h
  · next ms _ =>
    obtain ⟨htext, hlines⟩ := (Bool.and_eq_true _ _).mp h
    exact ⟨ms, by rw [eq_of_beq htext, eq_of_beq hlines]⟩
  · cases h
  · cases h

/-- The stage hands over just the lines that were added to its capture. -/
def Turn.HandsOver (t : Turn) : Prop :=
  ∀ text ms handed, t.part = .stage text ms (some handed) → handed = capturedIn ms

namespace Console

/-! ### Messages and the sink -/

/-- From the first console to the second the messages were put on the display and handed to the
sink. -/
structure Voiced (c : Console) (ls : List OutputLine) (d : Console) : Prop where
  output : d.output = c.output ++ ls
  sink : d.sink = (ls.foldl toSink c).sink
  log : d.log = (ls.foldl toSink c).log

theorem toSink_congr {c d : Console} (hsink : d.sink = c.sink) (hlog : d.log = c.log) :
    ∀ ls : List OutputLine, (ls.foldl toSink d).sink = (ls.foldl toSink c).sink ∧
      (ls.foldl toSink d).log = (ls.foldl toSink c).log := by
  intro ls
  induction ls generalizing c d with
  | nil => exact ⟨hsink, hlog⟩
  | cons l ls ih =>
    refine ih ?_ ?_ <;> unfold toSink <;> rw [hsink] <;> split <;> simp [hsink, hlog]

theorem Voiced.trans {c d e : Console} {ls ls' : List OutputLine} (h : Voiced c ls d)
    (h' : Voiced d ls' e) : Voiced c (ls ++ ls') e where
  output := by rw [h'.output, h.output, List.append_assoc]
  sink := by rw [h'.sink, List.foldl_append, (toSink_congr h.sink h.log ls').1]
  log := by rw [h'.log, List.foldl_append, (toSink_congr h.sink h.log ls').2]

/-- All that was put on the display was handed to the sink as well, and nothing else was. -/
def Voices (c d : Console) : Prop := ∃ ls, Voiced c ls d

theorem Voices.trans {c d e : Console} : Voices c d → Voices d e → Voices c e
  | ⟨_, h⟩, ⟨_, h'⟩ => ⟨_, h.trans h'⟩

theorem voices_print (c : Console) (level : Level) (message : String) :
    Voices c (c.print level message) := by
  unfold print
  split
  · exact ⟨[], (List.append_nil _).symm, rfl, rfl⟩
  · refine ⟨[⟨level, message⟩], ?_, rfl, rfl⟩
    show (c.toSink _).output ++ _ = _
    rw [(same_toSink c _).output]

theorem voices_printing : Printing Voices where
  trans := .trans
  print c level message _ := voices_print c level message
  besides _ _ _ _ _ _ := ⟨[], (List.append_nil _).symm, rfl, rfl⟩

/-! ### Printing where there is a capture -/

/-- From the first console to the second the messages were printed, and there was a capture: it took
the lines of all messages but warnings and errors, and these went to the display and the sink. -/
structure Diverted (c : Console) (ls : List OutputLine) (d : Console) : Prop where
  capture : ∃ table, c.activity.capture = some table ∧
    d.activity.capture = some (table ++ capturedLines ls)
  voiced : Voiced c (loud ls) d

theorem uncaptured_of_capture {c : Console} (hc : c.activity.capture.isSome = true)
    (ls : List OutputLine) : c.uncaptured ls = loud ls := by
  refine List.filter_congr fun l _ => ?_
  rw [Option.isNone_eq_false_iff.mpr hc, Bool.false_or]

/-- **Where there is a capture, printed messages go there, warnings and errors to the display and
the sink.** -/
theorem diverted_perform {c : Console} (hc : c.activity.capture.isSome = true) {o : Operation}
    (ho : o.isPrinting = true) : Diverted c (c.messages o) (c.perform o).2 := by
  have hcourse := course_perform c o
  obtain ⟨ls, hls⟩ := voices_printing.perform ho fun _ _ _ => voices_print c _ _
  have hshown : c.shown o = loud (c.messages o) := by
    rw [← uncaptured_of_capture hc]
    cases o with
    | display => cases ho
    | _ => rfl
  have hdrained : c.drained o = [] := by
    cases o with
    | takeOutput => cases ho
    | _ => rfl
  have hvoiced : loud (c.messages o) = ls := by
    have houtput := hcourse.output
    rw [hdrained, hshown, hls.output, List.nil_append] at houtput
    exact List.append_cancel_left houtput
  refine ⟨?_, hvoiced ▸ hls⟩
  obtain ⟨table, htable⟩ := Option.isSome_iff_exists.mp hc
  exact ⟨table, htable, by rw [hcourse.capture, htable]; rfl⟩

/-! ### The moments of captured stages -/

/-- In a submitted line there is a capture at every moment inside a captured stage. -/
def CapturesInside (c : Console) (x : Watched Console) : Prop :=
  Lawful c x ∧ (c.activity.dispatching = true →
    ∀ m ∈ x.moments, .producer ∈ m.scopes → m.console.activity.capture.isSome = true)

theorem CapturesInside.of_scopes {c : Console} {x : Watched Console} (hx : Lawful c x)
    (hscopes : ∀ m ∈ x.moments, m.scopes = []) : CapturesInside c x :=
  ⟨hx, fun _ m hm hin => by rw [hscopes m hm] at hin; cases hin⟩

/-- A scope other than a captured stage. -/
theorem CapturesInside.inside {c d : Console} {x : Watched Console} {s : Scope}
    {f : Console → Console} (hx : CapturesInside d x) (hs : s ≠ .producer)
    (hd : c.activity.dispatching = true → d.activity.dispatching = true)
    (hlawful : Lawful c ((x.within s).map f)) : CapturesInside c ((x.within s).map f) := by
  refine ⟨hlawful, fun hc m hm hin => ?_⟩
  obtain ⟨n, hn, rfl⟩ := List.mem_map.mp hm
  exact hx.2 (hd hc) n hn ((List.mem_cons.mp hin).resolve_left hs.symm)

/-- **A captured stage has a capture at every moment.** -/
theorem capturesInside_law : Law CapturesInside where
  done c := .of_scopes (lawful_law.done c) fun m hm => by simp at hm
  stuck c := .of_scopes (lawful_law.stuck c) fun m hm => by simp at hm
  bind c x f hx hf := by
    refine ⟨lawful_law.bind c x f hx.1 fun d hd => (hf d hd).1, fun hc m hm hin => ?_⟩
    obtain hm | ⟨d, hd, hm⟩ := Watched.mem_moments_bind.mp hm
    · exact hx.2 hc m hm hin
    · have hdispatching := ((hx.1 _ settles_law).1 d hd).dispatching
      exact (hf d hd).2 (hdispatching.trans hc) m hm hin
  operation c o := .of_scopes (lawful_law.operation c o) fun m hm => by
    rw [List.mem_singleton.mp hm]
  call c line := .of_scopes (lawful_law.call c line) fun m hm => by rw [List.mem_singleton.mp hm]
  addCommand c k := .of_scopes (lawful_law.addCommand c k) fun m hm => by simp at hm
  takeLine c := .of_scopes (lawful_law.takeLine c) fun m hm => by simp at hm
  record c text recorder hr :=
    .of_scopes (lawful_law.record c text recorder hr) fun m hm => by simp at hm
  piped c piped := .of_scopes (lawful_law.piped c piped) fun m hm => by simp at hm
  submission c line x hc hx :=
    hx.inside (by decide) (fun _ => rfl) (lawful_law.submission c line x hc hx.1)
  producer c x hx := by
    refine ⟨lawful_law.producer c x hx.1, fun hc m hm _ => ?_⟩
    obtain ⟨n, hn, rfl⟩ := List.mem_map.mp hm
    exact (hx.1 _ keepsCapture_law hc rfl).1 n hn
  expansion c x hc hx := hx.inside (by decide) id (lawful_law.expansion c x hc hx.1)
  script c x hc hx := hx.inside (by decide) id (lawful_law.script c x hc hx.1)

/-! ### What a captured stage hands over -/

/-- In a submitted line the stages hand over what was added to their captures. -/
def HandsOver (c : Console) (_ : Watched Console) (ts : List Turn) : Prop :=
  c.activity.dispatching = true → ∀ t ∈ ts, t.HandsOver

theorem handsOver_nil (c : Console) (x : Watched Console) : HandsOver c x [] :=
  fun _ t ht => by cases ht

theorem HandsOver.under {c : Console} {x : Watched Console} {ts : List Turn}
    (h : HandsOver c x ts) (o : Origin) : HandsOver c x (ts.map (·.under o)) := by
  intro hc t ht
  obtain ⟨u, hu, rfl⟩ := List.mem_map.mp ht
  exact h hc u hu

/-- **A captured stage hands over just what was added to its capture.** -/
theorem handsOver_law : TurnLaw .any HandsOver where
  own _ _ _ _ := trivial
  obeys _ _ _ h := h fun k _ args s => Routine.within_any (k.handler args) s
  done c := handsOver_nil c _
  stuck c := handsOver_nil c _
  bind c x f ts us hlawful hx hf hc t ht := by
    obtain ht | ht := List.mem_append.mp ht
    · exact hx hc t ht
    · obtain ⟨d, hd, ht⟩ := Turn.mem_following.mp ht
      have hdispatching := ((hlawful _ settles_law).1 d hd).dispatching
      exact hf d hd (hdispatching.trans hc) t ht
  operation c o _ := handsOver_nil c _
  call c line := handsOver_nil c _
  addCommand c k _ := handsOver_nil c _
  takeLine c := handsOver_nil c _
  piped c piped := handsOver_nil c _
  begins c text first rest f ts _ hx hc t ht := by
    obtain rfl | ht := List.mem_cons.mp ht
    · intro _ _ _ h; cases h
    · exact hx ((abides_echo c text _).dispatching.trans hc) t ht
  ends c text x ts _ hx hc t ht := by
    obtain ht | ht := List.mem_append.mp ht
    · exact hx hc t ht
    · obtain ⟨d, -, rfl⟩ := mem_stageTurn.mp ht
      intro _ _ _ h; cases h
  producer c d text x ts hd hlawful hx hc t ht := by
    subst hd
    obtain ht | ht := List.mem_append.mp ht
    · exact hx.under .producer hc t ht
    · obtain ⟨e, he, rfl⟩ := mem_stageTurn.mp ht
      intro _ ms handed h
      have hcourse := lawful_bind_ended hlawful text _ course_law hc e he
      cases h
      rw [hcourse.capture]
      rfl
  submission c line x ts hc _ hc' := by rw [hc] at hc'; cases hc'
  expansion c x ts _ hx := hx.under .expansion
  script c x ts _ hx := hx.under .script
  handler _ c x ts hx := hx.under .handler

/-! ### Submitted lines -/

theorem capturesInside_execute {limit : Nat} {line : String} {c : Console} {m : Moment}
    (hm : m ∈ ((Entrance.execute line).watched limit c).moments) (hin : .producer ∈ m.scopes) :
    m.console.activity.capture.isSome = true := by
  cases hc : c.activity.dispatching with
  | true => exact (capturesInside_law.entrance limit c (.execute line)).2 hc m hm hin
  | false =>
    rw [Entrance.watched, watchExecute] at hm
    split at hm
    · simp at hm
    · rw [if_neg (by simp [hc])] at hm
      obtain ⟨n, hn, rfl⟩ := List.mem_map.mp hm
      exact (capturesInside_law.line limit _ (c.submitting _)).2 rfl n hn
        ((List.mem_cons.mp hin).resolve_left (by simp))

theorem handsOver_execute {limit : Nat} {line : String} {c : Console} {t : Turn}
    (ht : t ∈ (Entrance.execute line).turns limit c) : t.HandsOver := by
  cases hc : c.activity.dispatching with
  | true => exact handsOver_law.pipeLaw.entrance limit c (.execute line) hc t ht
  | false =>
    rw [Entrance.turns, turnsExecute] at ht
    split at ht
    · cases ht
    · rw [if_neg (by simp [hc])] at ht
      exact handsOver_law.pipeLaw.line limit _ (c.submitting _) rfl t ht

/-- **A captured stage does not leak.** While a stage runs that is not the last of its statement,
whatever the stage runs in turn, a printed message goes to a capture and neither to the display nor
to the sink, but for warnings and errors, which go to both and to no capture. What prints nothing
leaves the capture as it is, and the display but for what is put there or taken from it directly.
When the stage is over, it hands over the lines that were added to its own capture, and the next
stage of the statement starts with these lines piped. -/
theorem captured_stages (limit : Nat) (line : String) (c : Console) :
    (∀ m ∈ ((Entrance.execute line).watched limit c).moments, .producer ∈ m.scopes →
      ∀ o, m.act = .operation o →
        if o.isPrinting then Diverted m.console (m.console.messages o) (m.console.perform o).2
        else m.console.messages o = [] ∧
          Course m.console [] (m.console.shown o) (m.console.drained o) (m.console.perform o).2) ∧
    (∀ t ∈ (Entrance.execute line).turns limit c, ∀ text ms handed,
      t.part = .stage text ms (some handed) → handed = capturedIn ms) ∧
    HandedOn ((Entrance.execute line).watched limit c).result.isSome
      ((Entrance.execute line).turns limit c) := by
  refine ⟨fun m hm hin o _ => ?_, fun t ht => handsOver_execute ht,
    handsOn_law.entrance limit c (.execute line)⟩
  split
  · next ho => exact diverted_perform (capturesInside_execute hm hin) ho
  · next ho =>
    have hnone := messages_eq_nil (by simpa using ho) m.console
    have hcourse := course_perform m.console o
    rw [hnone] at hcourse
    exact ⟨hnone, hcourse⟩

/-- What a handler's nested line and the handler itself print in a captured stage goes on together,
and the next stage starts with it. -/
theorem captured_stages_telling :
    (∃ m ∈ ((Entrance.execute "tell | grep h").watched 5 telling).moments,
      ∃ message, m.act = .operation (.print .info message) ∧
        Diverted m.console (m.console.messages (.print .info message))
          (m.console.print .info message)) ∧
    (∃ t ∈ (Entrance.execute "tell | grep h").turns 5 telling, ∃ ms,
      t.part = .stage "tell" ms (some ["hi", "rest"]) ∧ capturedIn ms = ["hi", "rest"]) ∧
    ∃ t u v, Turn.level [] ((Entrance.execute "tell | grep h").turns 5 telling) = [t, u, v] ∧
      u.part.handed? = some ["hi", "rest"] ∧ v.console.activity.piped = some ["hi", "rest"] := by
  have hprint : ∃ m ∈ ((Entrance.execute "tell | grep h").watched 5 telling).moments,
      .producer ∈ m.scopes ∧ m.act.prints .info = true := by decide +kernel
  have hhanded : ∃ t ∈ (Entrance.execute "tell | grep h").turns 5 telling,
      t.part.hands "tell" ["hi", "rest"] = true := by decide +kernel
  have hlevel : (Turn.level [] ((Entrance.execute "tell | grep h").turns 5 telling)).map
      (·.part.handed?) = [none, some ["hi", "rest"], none] := by decide +kernel
  obtain ⟨hmoments, hturns, hnext⟩ := captured_stages 5 "tell | grep h" telling
  refine ⟨?_, ?_, ?_⟩
  · obtain ⟨m, hm, hin, hprints⟩ := hprint
    obtain ⟨message, hact⟩ := Act.exists_of_prints hprints
    exact ⟨m, hm, message, hact, hmoments m hm hin _ hact⟩
  · obtain ⟨t, ht, hhands⟩ := hhanded
    obtain ⟨ms, hpart⟩ := Part.exists_of_hands hhands
    exact ⟨t, ht, ms, hpart, (hturns t ht _ ms _ hpart).symm⟩
  · obtain ⟨t, ts, ht, -, hts⟩ := List.map_eq_cons_iff.mp hlevel
    obtain ⟨u, us, rfl, hu, hus⟩ := List.map_eq_cons_iff.mp hts
    obtain ⟨v, vs, rfl, -, hvs⟩ := List.map_eq_cons_iff.mp hus
    obtain rfl := List.map_eq_nil_iff.mp hvs
    have hchain := hnext.next []
    rw [ht, List.isChain_cons_cons, List.isChain_cons_cons] at hchain
    exact ⟨t, u, v, ht, hu, (hchain.2.1 _ hu).2⟩

end Console

end DevConsole
