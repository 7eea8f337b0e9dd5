import DevConsole.Proofs.Run.Reachable
import DevConsole.Proofs.Run.Setup
import DevConsole.Proofs.Run.Termination
import DevConsole.Proofs.Run.TurnLaw

/-!
# What is echoed

With the echo on and no other than built-in commands, a submitted line echoes every statement that
neither an alias nor a captured stage runs and that is not silent (`echoes_law`). These are the
statements that were typed, and those of the lines of scripts: just the typed ones are echoed if and
only if no statement of a script is (`echoed_statements`).
-/

namespace DevConsole

/-- The messages at the level of echoes. -/
def echoesOf (ls : List OutputLine) : List String :=
  (ls.filter (·.level == .command)).map (·.message)

theorem echoesOf_append (ls ls' : List OutputLine) :
    echoesOf (ls ++ ls') = echoesOf ls ++ echoesOf ls' := by
  simp [echoesOf]

/-- The first stage of the statement is silent. -/
def startsSilent (statement : String) : Bool :=
  (stages statement).head?.any fun s => (Stage.ofText s).silent

/-- The echo of a statement, unless its first stage is silent. -/
def echo? (prompt statement : String) : Option String :=
  if startsSilent statement then none else some (prompt ++ Text.trim statement)

namespace Turn

/-- Neither an alias nor a captured stage runs it. -/
def isHeard (t : Turn) : Bool := t.origins.all fun o => o != .expansion && o != .producer

/-- The echo of a statement, unless its first stage is silent. -/
def echo? (prompt : String) (t : Turn) : Option String := t.statement?.bind (DevConsole.echo? prompt)

/-- The echoes of the statements that neither an alias nor a captured stage runs. -/
def echoes (prompt : String) (ts : List Turn) : List String := pick isHeard (echo? prompt) ts

theorem isHeard_of_typed (t : Turn) (h : t.isTyped = true) : t.isHeard = true := by
  unfold isHeard
  rw [List.isEmpty_iff.mp h]
  rfl

/-- The turns inside of an alias or a captured stage are not heard. -/
theorem echoes_under_eq_nil {o : Origin} (ho : o = .expansion ∨ o = .producer) (prompt : String)
    (ts : List Turn) : echoes prompt (ts.map (·.under o)) = [] :=
  pick_under_eq_nil (fun t => by rcases ho with rfl | rfl <;> simp [isHeard, under]) ts

/-- The turns of scripts and of a handler's lines are heard like others. -/
theorem echoes_under {o : Origin} (ho : o ≠ .expansion) (ho' : o ≠ .producer) (prompt : String)
    (ts : List Turn) : echoes prompt (ts.map (·.under o)) = echoes prompt ts :=
  pick_under (fun t => by simp [isHeard, under, ho, ho']) (fun _ => rfl) ts

end Turn

namespace Console

/-! ### Statements that are echoed -/

/-- Nothing is captured and no alias is running. -/
def isOpen (c : Console) : Bool := c.activity.capture.isNone && c.activity.aliasDepth == 0

/-- The echoes of turns that start on the console. -/
def echoesIn (c : Console) (ts : List Turn) : List String :=
  if c.isOpen then Turn.echoes c.settings.promptText ts else []

theorem echoesIn_nil (c : Console) : c.echoesIn [] = [] := ite_self _

theorem echoesIn_append (c : Console) (ts us : List Turn) :
    c.echoesIn (ts ++ us) = c.echoesIn ts ++ c.echoesIn us := by
  unfold echoesIn
  split
  · exact Turn.pick_append ts us
  · rfl

theorem echoesIn_congr {c d : Console} (hopen : d.isOpen = c.isOpen)
    (hsettings : d.settings = c.settings) (ts : List Turn) : d.echoesIn ts = c.echoesIn ts := by
  unfold echoesIn
  rw [hopen, hsettings]

theorem echoesIn_of_not_open {c : Console} (h : c.isOpen = false) (ts : List Turn) :
    c.echoesIn ts = [] := by
  unfold echoesIn
  rw [h]
  rfl

theorem echoesIn_under {o : Origin} (ho : o ≠ .expansion) (ho' : o ≠ .producer) (c : Console)
    (ts : List Turn) : c.echoesIn (ts.map (·.under o)) = c.echoesIn ts := by
  unfold echoesIn
  rw [Turn.echoes_under ho ho']

theorem echoesIn_under_eq_nil {o : Origin} (ho : o = .expansion ∨ o = .producer) (c : Console)
    (ts : List Turn) : c.echoesIn (ts.map (·.under o)) = [] := by
  unfold echoesIn
  rw [Turn.echoes_under_eq_nil ho, ite_self]

/-- The end of a stage echoes nothing. -/
theorem echoesIn_stageTurn (c d : Console) (text : String) (x : Watched Console)
    (handed : Console → Option (List String)) : d.echoesIn (c.stageTurn text x handed) = [] := by
  unfold echoesIn stageTurn
  cases x.result <;> exact ite_self _

/-- In a submitted line a run leaves the console as open as it was. -/
theorem isOpen_of_lawful {c d : Console} {x : Watched Console} (hx : Lawful c x)
    (hc : c.activity.dispatching = true) (hd : x.result = some d) : d.isOpen = c.isOpen := by
  have hcapture := (hx _ course_law hc d hd).capture_isNone
  rw [isOpen, isOpen, hcapture, ((hx _ settles_law).1 d hd).aliasDepth_beq]

theorem isOpen_echo (c : Console) (statement : String) (silent : Bool) :
    (c.echo statement silent).isOpen = c.isOpen := by
  unfold echo
  split
  · rw [isOpen, isOpen, (course_print c _ _).capture_isNone, (abides_print c _ _).aliasDepth]
  · rfl

/-! ### Steps that echo nothing -/

/-- From the first console to the second nothing was echoed and no echo was taken. -/
def Quiet (c d : Console) : Prop := echoesOf d.output = echoesOf c.output

theorem quiet_print (c : Console) {level : Level} (hlevel : level ≠ .command) (message : String) :
    Quiet c (c.print level message) := by
  unfold Quiet print
  split
  · rfl
  · show echoesOf ((c.toSink _).output ++ _) = _
    rw [(same_toSink c _).output, echoesOf_append]
    simp [echoesOf, hlevel]

theorem quiet_printing : Printing Quiet where
  trans h h' := h'.trans h
  print c _ message hlevel := quiet_print c hlevel message
  besides _ _ _ _ _ _ := rfl

theorem quiet_perform {c : Console} {o : Operation} (ho : o.Usual c.snapshot) :
    Quiet c (c.perform o).2 := by
  cases hprinting : o.isPrinting with
  | true =>
    refine quiet_printing.perform hprinting fun level message hprint => ?_
    subst hprint
    exact quiet_print c ho message
  | false =>
    cases hsilent : o.isSilent with
    | true => exact congrArg echoesOf (same_perform hsilent c).output
    | false =>
      cases o with
      | takePiped => rfl
      | display | takeOutput => cases ho
      | print | assign | complete | cycle => cases hprinting
      | _ => cases hsilent

theorem settings_perform {c : Console} {o : Operation} (ho : o.Usual c.snapshot) :
    (c.perform o).2.settings = c.settings := by
  cases hsetup : o.isSetup with
  | false => exact (sameSetup_perform hsetup c).settings
  | true =>
    cases o with
    | startRecording | stopRecording => rfl
    | setEcho => cases ho
    | _ => cases hsetup

/-- From the first console to the second just the lines were echoed, with the same settings, and the
commands are as they were wanted. -/
structure Echoed (c : Console) (ls : List String) (d : Console) : Prop where
  obeys : d.Obeys .usual
  settings : d.settings = c.settings
  output : echoesOf d.output = echoesOf c.output ++ ls

theorem Echoed.trans {c d e : Console} {ls ls' : List String} (h : Echoed c ls d)
    (h' : Echoed d ls' e) : Echoed c (ls ++ ls') e where
  obeys := h'.obeys
  settings := h'.settings.trans h.settings
  output := by rw [h'.output, h.output, List.append_assoc]

theorem echoed_of_quiet {c d : Console} (hobeys : d.Obeys .usual) (hsettings : d.settings = c.settings)
    (hquiet : Quiet c d) : Echoed c [] d := ⟨hobeys, hsettings, hquiet.trans (List.append_nil _).symm⟩

/-- A statement that begins is echoed if it is one to echo. -/
theorem echoed_echo {c : Console} {text first : String} {rest : List String}
    (hstages : stages text = first :: rest) (hc : c.Obeys .usual) (hecho : c.settings.echo = true) :
    Echoed c (c.echoesIn [⟨[], c, .statement text⟩]) (c.echo text (Stage.ofText first).silent) := by
  have hsilent : startsSilent text = (Stage.ofText first).silent := by
    rw [startsSilent, hstages]
    rfl
  have hturn : c.echoesIn [⟨[], c, .statement text⟩] =
      if c.isOpen && !(Stage.ofText first).silent then
        [c.settings.promptText ++ Text.trim text] else [] := by
    unfold echoesIn Turn.echoes
    cases c.isOpen <;> cases hs : (Stage.ofText first).silent <;>
      simp [Turn.pick_cons, Turn.pick_nil, Turn.isHeard, Turn.echo?, Turn.statement?, echo?,
        hsilent, hs]
  refine ⟨?_, (sameSetup_echo c text _).settings, ?_⟩
  · unfold echo
    split
    · intro k hk
      rw [(sameTables_print c _ _).commands] at hk
      exact hc k hk
    · exact hc
  · rw [hturn]
    unfold echo
    rw [hecho, Bool.true_and, ← isOpen]
    split
    · next h =>
      have hopen : c.isOpen = true := ((Bool.and_eq_true _ _).mp h).1
      have hcapture : c.activity.capture = none :=
        Option.isNone_iff_eq_none.mp ((Bool.and_eq_true _ _).mp hopen).1
      rw [output_print hcapture, echoesOf_append]
      rfl
    · exact (List.append_nil _).symm

/-! ### Runs -/

/-- The consoles have the same commands and settings and show the same. -/
structure SameFace (c d : Console) : Prop where
  commands : d.commands = c.commands
  settings : d.settings = c.settings
  output : d.output = c.output

theorem SameFace.obeys {c d : Console} (h : SameFace c d) {p : Policy} (hc : c.Obeys p) :
    d.Obeys p := fun k hk => hc k (h.commands ▸ hk)

/-- Consoles of the same face around a run. -/
theorem Echoed.of_sameFace {c d e f : Console} {ls : List String} (hd : SameFace c d)
    (h : Echoed d ls e) (hf : SameFace e f) : Echoed c ls f where
  obeys := hf.obeys h.obeys
  settings := hf.settings.trans (h.settings.trans hd.settings)
  output := by rw [hf.output, h.output, hd.output]

/-- In a submitted line, with the echo on and handlers that do the usual things, just the statements
that are heard are echoed, and none is a handler's. -/
def Echoes (c : Console) (x : Watched Console) (ts : List Turn) : Prop :=
  c.Obeys .usual → c.activity.dispatching = true → c.settings.echo = true →
    (∀ t ∈ ts, .handler ∉ t.origins) ∧ ∀ d, x.result = some d → Echoed c (c.echoesIn ts) d

theorem echoes_done {c d : Console} (h : c.Obeys .usual → Echoed c [] d) :
    Echoes c (.done d) [] := by
  intro hc _ _
  refine ⟨List.forall_mem_nil _, fun e he => ?_⟩
  obtain rfl : d = e := Option.some.inj he
  rw [echoesIn_nil]
  exact h hc

theorem echoes_of_sameFace {c d : Console} (h : SameFace c d) : Echoes c (.done d) [] :=
  echoes_done fun hc => echoed_of_quiet (h.obeys hc) h.settings (congrArg echoesOf h.output)

theorem handler_notMem_under {o : Origin} (ho : o ≠ .handler) {ts : List Turn}
    (h : ∀ t ∈ ts, .handler ∉ t.origins) : ∀ t ∈ ts.map (·.under o), .handler ∉ t.origins := by
  intro t ht
  obtain ⟨u, hu, rfl⟩ := List.mem_map.mp ht
  rw [Turn.under, List.mem_cons, not_or]
  exact ⟨ho.symm, h u hu⟩

theorem handler_notMem_stageTurn {c : Console} {text : String} {x : Watched Console}
    {handed : Console → Option (List String)} :
    ∀ t ∈ c.stageTurn text x handed, .handler ∉ t.origins := by
  intro t ht
  obtain ⟨d, -, rfl⟩ := mem_stageTurn.mp ht
  exact List.not_mem_nil

/-- A console of the same face around the run, and the turns under something. -/
theorem Echoes.inside {c d : Console} {x : Watched Console} {s : Scope} {f : Console → Console}
    {ts us : List Turn} (hx : Echoes d x ts) (hd : SameFace c d)
    (hdispatching : d.activity.dispatching = c.activity.dispatching)
    (hf : ∀ e, SameFace e (f e))
    (hus : (∀ t ∈ ts, .handler ∉ t.origins) → ∀ t ∈ us, .handler ∉ t.origins)
    (hechoes : c.echoesIn us = d.echoesIn ts) : Echoes c ((x.within s).map f) us := by
  intro hc hc' hecho
  obtain ⟨horigins, hresult⟩ := hx (hd.obeys hc) (hdispatching.trans hc') (by rw [hd.settings, hecho])
  refine ⟨hus horigins, fun e he => ?_⟩
  obtain ⟨e, hxe, rfl⟩ := Option.map_eq_some_iff.mp he
  rw [hechoes]
  exact (hresult e hxe).of_sameFace hd (hf e)

theorem echoed_ended {c : Console} (text : String) {d e : Console} (hd : d.Obeys .usual)
    (he : (c.ended text d).result = some e) : Echoed d [] e := by
  unfold ended at he
  split at he
  · rw [watchRecord_result] at he
    obtain rfl := Option.some.inj he
    unfold recordStage
    split
    · split
      · exact echoed_of_quiet hd rfl rfl
      · have htables := sameTables_print d .warn
          "Script buffer is full, stop recording with 'stoprecord'"
        exact echoed_of_quiet (fun k hk => hd k (htables.commands ▸ hk))
          (sameSetup_print d _ _).settings (quiet_printing.warn d _)
    · exact echoed_of_quiet hd rfl rfl
  · obtain rfl := Option.some.inj he
    exact echoed_of_quiet hd rfl rfl

theorem Echoes.ended {c : Console} {x : Watched Console} {ts : List Turn} (hx : Echoes c x ts)
    (text : String) (handed : Console → Option (List String)) :
    Echoes c (x.bind (c.ended text))
      (ts ++ c.stageTurn text (x.bind (c.ended text)) handed) := by
  intro hc hdispatching hecho
  obtain ⟨horigins, hresult⟩ := hx hc hdispatching hecho
  refine ⟨fun t ht => ?_, fun e he => ?_⟩
  · rcases List.mem_append.mp ht with ht | ht
    · exact horigins t ht
    · exact handler_notMem_stageTurn t ht
  · obtain ⟨d, hd, he⟩ := Watched.result_bind_eq_some.mp he
    have hechoed := hresult d hd
    have hall := hechoed.trans (echoed_ended text hechoed.obeys he)
    rwa [echoesIn_append, echoesIn_stageTurn]

/-- **Just the statements that are heard are echoed.** -/
theorem echoes_law : TurnLaw .usual Echoes where
  own s o ho hcommand := by
    cases o with
    | print level message => exact fun h => hcommand message (h ▸ rfl)
    | note | assign => trivial
    | _ => cases ho
  obeys c x ts h hc := h hc hc
  done c := echoes_of_sameFace ⟨rfl, rfl, rfl⟩
  stuck c _ _ _ := ⟨List.forall_mem_nil _, fun d hd => by cases hd⟩
  bind c x f ts us hlawful hx hf hc hdispatching hecho := by
    obtain ⟨horigins, hresult⟩ := hx hc hdispatching hecho
    cases hr : x.result with
    | none =>
      refine ⟨fun t ht => ?_, fun e he => ?_⟩
      · rw [Turn.following_none, List.append_nil] at ht
        exact horigins t ht
      · rw [Watched.result_bind, hr] at he
        cases he
    | some d =>
      have hechoed := hresult d hr
      have hdispatching' := ((hlawful _ settles_law).1 d hr).dispatching.trans hdispatching
      obtain ⟨horigins', hresult'⟩ := hf d hr hechoed.obeys hdispatching'
        (by rw [hechoed.settings, hecho])
      refine ⟨fun t ht => (List.mem_append.mp ht).elim (horigins t) (horigins' t), fun e he => ?_⟩
      rw [Watched.result_bind, hr, Option.bind_some] at he
      rw [Turn.following_some, echoesIn_append,
        ← echoesIn_congr (isOpen_of_lawful hlawful hdispatching hr) hechoed.settings (us d)]
      exact hechoed.trans (hresult' e he)
  operation c o ho := echoes_done fun hc =>
    echoed_of_quiet (hc.perform o) (settings_perform ho) (quiet_perform ho)
  call c line := echoes_of_sameFace ⟨rfl, rfl, rfl⟩
  addCommand c k hk := echoes_done fun hc => echoed_of_quiet (hc.addCommand hk)
    (sameSetup_addCommand c k).settings (congrArg echoesOf (same_addCommand c k).output)
  takeLine c := echoes_of_sameFace ⟨rfl, rfl, rfl⟩
  piped c piped := echoes_of_sameFace ⟨rfl, rfl, rfl⟩
  begins c text first rest f ts hstages hx hc hdispatching hecho := by
    have hbegin := echoed_echo hstages hc hecho
    have habides := abides_echo c text (Stage.ofText first).silent
    have hresult := watchEcho_result text (Stage.ofText first).silent c
    obtain ⟨horigins, hrest⟩ := hx hbegin.obeys (habides.dispatching.trans hdispatching)
      (by rw [hbegin.settings, hecho])
    refine ⟨?_, fun d hd => ?_⟩
    · rw [List.forall_mem_cons]
      exact ⟨List.not_mem_nil, horigins⟩
    · rw [Watched.result_bind, hresult, Option.bind_some] at hd
      have hturns : ⟨[], c, .statement text⟩ :: ts = [⟨[], c, .statement text⟩] ++ ts := rfl
      rw [hturns, echoesIn_append,
        ← echoesIn_congr (isOpen_echo c text _) hbegin.settings ts]
      exact hbegin.trans (hrest d hd)
  ends c text x ts _ hx := hx.ended text _
  producer c d text x ts hd _ hx := by
    subst hd
    refine (hx.ended text fun e => some (e.activity.capture.getD [])).inside ⟨rfl, rfl, rfl⟩ rfl
      (fun _ => ⟨rfl, rfl, rfl⟩) (fun h t ht => ?_) ?_
    · rcases List.mem_append.mp ht with ht | ht
      · exact handler_notMem_under (by decide) (fun u hu => h u (List.mem_append_left _ hu)) t ht
      · exact handler_notMem_stageTurn t ht
    · rw [echoesIn_append, echoesIn_under_eq_nil (.inr rfl), echoesIn_stageTurn,
        echoesIn_of_not_open rfl]
      rfl
  submission c line x ts hd _ _ hc := by rw [hd] at hc; cases hc
  expansion c x ts _ hx := by
    refine hx.inside ⟨rfl, rfl, rfl⟩ rfl (fun e => by split <;> exact ⟨rfl, rfl, rfl⟩)
      (handler_notMem_under (by decide)) ?_
    rw [echoesIn_under_eq_nil (.inl rfl), echoesIn_of_not_open (by simp [isOpen, withAliasDepth])]
  script c x ts _ hx :=
    hx.inside ⟨rfl, rfl, rfl⟩ rfl (fun _ => ⟨rfl, rfl, rfl⟩) (handler_notMem_under (by decide))
      (echoesIn_under (by decide) (by decide) c ts)
  handler hp := hp.elim

/-! ### Submitted lines -/

/-- **A line submitted at rest echoes just the statements that are heard**, and none is a
handler's. -/
theorem echoes_execute {limit : Nat} {line : String} {c d : Console} (hc : c.activity = .rest)
    (hobeys : c.Obeys .usual) (hecho : c.settings.echo = true)
    (hd : c.execute limit line = some d) :
    (∀ t ∈ (Entrance.execute line).turns limit c, .handler ∉ t.origins) ∧
      echoesOf d.output = echoesOf c.output ++
        Turn.echoes c.settings.promptText ((Entrance.execute line).turns limit c) := by
  have hdispatching : ¬ c.activity.dispatching = true := by rw [hc]; decide
  rw [Entrance.turns, turnsExecute]
  unfold execute executeWith at hd
  dsimp only at hd
  by_cases hblank : Text.trim line = ""
  · rw [if_pos hblank] at hd ⊢
    obtain rfl := Option.some.inj hd
    exact ⟨List.forall_mem_nil _, (List.append_nil _).symm⟩
  · rw [if_neg hblank, if_neg hdispatching] at hd ⊢
    obtain ⟨e, he, rfl⟩ := Option.map_eq_some_iff.mp hd
    rw [← watchLine_result] at he
    obtain ⟨horigins, hresult⟩ :=
      echoes_law.pipeLaw.line limit _ (c.submitting (Text.trim line)) hobeys rfl hecho
    refine ⟨horigins, ?_⟩
    have hopen : (c.submitting (Text.trim line)).isOpen = true := by
      show (c.activity.capture.isNone && c.activity.aliasDepth == 0) = true
      rw [hc]
      rfl
    have houtput := (hresult e he).output
    rwa [echoesIn, hopen, if_pos rfl] at houtput

/-- What is heard and no handler's was typed or is a script's. -/
theorem typed_or_script {t : Turn} (hhandler : .handler ∉ t.origins) (hheard : t.isHeard = true) :
    t.isTyped = true ∨ .script ∈ t.origins := by
  obtain ⟨origins, console, part⟩ := t
  cases origins with
  | nil => exact .inl rfl
  | cons o os =>
    have ho := List.all_eq_true.mp hheard o List.mem_cons_self
    cases o with
    | handler => exact absurd List.mem_cons_self hhandler
    | script => exact .inr List.mem_cons_self
    | expansion | producer => cases ho

theorem typed_echoes (prompt : String) (ts : List Turn) :
    Turn.pick Turn.isTyped (Turn.echo? prompt) ts =
      (Turn.pick Turn.isTyped Turn.statement? ts).filterMap (echo? prompt) := by
  rw [Turn.pick, Turn.pick, List.filterMap_filterMap]
  rfl

/-- **Typed statements and those of scripts are echoed.** With the echo on and built-in commands only,
a line that the host executes at rest echoes, in order, the statements that neither an alias nor a
captured stage runs and that are not silent. Such a statement was typed or is a script's, and the
echoes are those of the statements of the line if and only if none of them is a script's. -/
theorem echoed_statements {c : Console} (hc : c.activity = .rest) (hecho : c.settings.echo = true)
    (hbuiltin : ∀ k ∈ c.commands.toList, k ∈ Builtin.commands) (line : String) :
    ∃ d, ∀ limit, maxNesting ≤ limit → c.execute limit line = some d ∧
      echoesOf d.output = echoesOf c.output ++
        Turn.echoes c.settings.promptText ((Entrance.execute line).turns limit c) ∧
      Turn.pick Turn.isTyped Turn.statement? ((Entrance.execute line).turns limit c) =
        (statements (Text.trim line)).filter (stages · ≠ []) ∧
      (∀ t ∈ (Entrance.execute line).turns limit c, t.isHeard = true →
        t.isTyped = true ∨ .script ∈ t.origins) ∧
      (echoesOf d.output = echoesOf c.output ++
          ((statements (Text.trim line)).filter (stages · ≠ [])).filterMap
            (echo? c.settings.promptText) ↔
        ∀ t ∈ (Entrance.execute line).turns limit c, t.isHeard = true →
          (t.echo? c.settings.promptText).isSome = true → .script ∉ t.origins) := by
  have hobeys : c.Obeys .usual := fun k hk args s => Builtin.within_usual args s (hbuiltin k hk)
  obtain ⟨d, hends⟩ := Entrance.ends id (.execute line) hobeys
  refine ⟨d, fun limit hlimit => ?_⟩
  have hd : c.execute limit line = some d := hends limit hlimit
  have hresult : ((Entrance.execute line).watched limit c).result = some d :=
    (Entrance.watched_result limit c _).trans hd
  obtain ⟨horigins, houtput⟩ := echoes_execute hc hobeys hecho hd
  have htyped := (typedAs_execute hresult).statements
  have hscript : ∀ t ∈ (Entrance.execute line).turns limit c, t.isHeard = true →
      t.isTyped = true ∨ .script ∈ t.origins := fun t ht => typed_or_script (horigins t ht)
  refine ⟨hd, houtput, htyped, hscript, ?_⟩
  rw [houtput, List.append_cancel_left_eq, ← htyped, ← typed_echoes]
  refine (Turn.pick_eq_pick_iff Turn.isHeard_of_typed _).trans ?_
  refine forall_congr' fun t => forall_congr' fun ht => forall_congr' fun hheard =>
    forall_congr' fun _ => ⟨fun h => ?_, fun h => (hscript t ht hheard).resolve_right h⟩
  rw [List.isEmpty_iff.mp h]
  exact List.not_mem_nil

/-- A new console with a script. -/
def scripted : Console := { new {} with disk := ⟨[(["s"], .file "echo hi".toUTF8)]⟩ }

/-- The line of the script is echoed as the typed one is. -/
theorem echoed_statements_scripted :
    ∃ d, (∀ limit, maxNesting ≤ limit → scripted.execute limit "exec s; @echo a" = some d) ∧
      echoesOf d.output = ["] exec s", "] echo hi"] := by
  have hcommands : scripted.commands = (new {}).commands := by rw [scripted]
  have hbuiltin : ∀ k ∈ scripted.commands.toList, k ∈ Builtin.commands := by
    intro k hk
    rw [hcommands] at hk
    exact mem_commands_new {} hk
  obtain ⟨d, hd⟩ := echoed_statements (c := scripted) (by decide +kernel) (by decide +kernel)
    hbuiltin "exec s; @echo a"
  refine ⟨d, fun limit hlimit => (hd limit hlimit).1, ?_⟩
  obtain ⟨-, houtput, -⟩ := hd maxNesting le_rfl
  rw [houtput]
  decide +kernel

end Console

end DevConsole
