import DevConsole.Proofs.Frame.Events
import DevConsole.Proofs.Run.Queues

/-!
# What frames deliver

Each event of an application keeps an account: what was in a queue and what came to it is what was
taken from it and what is in it still (`step_accounts`). So along any frames, of the messages,
changes and records none is lost or comes twice, and each record is on the display when the next
frame has put records there (`session_delivers`).
-/

namespace DevConsole

namespace App

/-! ### Accounts -/

namespace Passage

/-- Messages are put on the display, by a run or for records. -/
def displayed (ps : List Passage) : List OutputLine :=
  ps.flatMap fun p => shownIn p.moments ++ p.forwarded.filterMap (·.shown?)

/-- The changes made. -/
def changed (ps : List Passage) : List Change := ps.flatMap fun p => changedIn p.moments

/-- The records written to the log. -/
def records (ps : List Passage) : List LogRecord := ps.flatMap (·.captured)

/-- The records handed to the display. -/
def shown (ps : List Passage) : List LogRecord := ps.flatMap (·.forwarded)

/-- The output published. -/
def output (ps : List Passage) : List OutputLine := (ps.filterMap (·.published)).flatMap (·.output)

/-- The changes published. -/
def changes (ps : List Passage) : List Change := (ps.filterMap (·.published)).flatMap (·.changes)

/-- A run takes from the output or the changes. -/
def taps (p : Passage) : Bool := p.moments.any (·.act.drains)

@[simp] theorem displayed_singleton (p : Passage) :
    displayed [p] = shownIn p.moments ++ p.forwarded.filterMap (·.shown?) := List.append_nil _

@[simp] theorem changed_singleton (p : Passage) : changed [p] = changedIn p.moments :=
  List.append_nil _

@[simp] theorem records_singleton (p : Passage) : records [p] = p.captured := List.append_nil _

@[simp] theorem shown_singleton (p : Passage) : shown [p] = p.forwarded := List.append_nil _

@[simp] theorem output_singleton (p : Passage) : output [p] = p.published.elim [] (·.output) := by
  cases h : p.published <;> simp [output, h]

@[simp] theorem changes_singleton (p : Passage) :
    changes [p] = p.published.elim [] (·.changes) := by
  cases h : p.published <;> simp [changes, h]

end Passage

/-- What was in the queues and came to them was taken from them or is in them still. -/
structure Accounts (x : Running) (ps : List Passage) (y : Running) : Prop where
  output : x.app.console.output ++ Passage.displayed ps = Passage.output ps ++ y.app.console.output
  changes : x.app.console.changes ++ Passage.changed ps = Passage.changes ps ++ y.app.console.changes
  capturesLog : y.app.capturesLog = x.app.capturesLog
  /-- Records are handed over and shown in the order in which they were written. -/
  records : x.app.capturesLog = true → x.held ++ x.app.console.log ++ Passage.records ps =
    Passage.shown ps ++ (y.held ++ y.app.console.log)
  /-- Without capture no record is handed over. -/
  ignored : x.app.capturesLog = false → x.held = [] → y.held = [] ∧ Passage.shown ps = []

/-- One account after another. -/
theorem append_accounts {α : Type} {before between after come come' gone gone' : List α}
    (h : before ++ come = gone ++ between) (h' : between ++ come' = gone' ++ after) :
    before ++ (come ++ come') = gone ++ gone' ++ after := by
  rw [← List.append_assoc, h, List.append_assoc, h', List.append_assoc]

section Accounts
variable {limit : Nat} {x y z : Running} {ps qs : List Passage}

theorem accounts_refl (x : Running) : Accounts x [] x where
  output := List.append_nil _
  changes := List.append_nil _
  capturesLog := rfl
  records _ := List.append_nil _
  ignored _ hx := ⟨hx, rfl⟩

theorem Accounts.trans (h : Accounts x ps y) (h' : Accounts y qs z) : Accounts x (ps ++ qs) z where
  output := by
    simp only [Passage.displayed, Passage.output, List.filterMap_append, List.flatMap_append]
    exact append_accounts h.output h'.output
  changes := by
    simp only [Passage.changed, Passage.changes, List.filterMap_append, List.flatMap_append]
    exact append_accounts h.changes h'.changes
  capturesLog := h'.capturesLog.trans h.capturesLog
  records hx := by
    simp only [Passage.records, Passage.shown, List.flatMap_append]
    exact append_accounts (h.records hx) (h'.records (h.capturesLog.trans hx))
  ignored hx hheld := by
    obtain ⟨hy, hps⟩ := h.ignored hx hheld
    obtain ⟨hz, hqs⟩ := h'.ignored (h.capturesLog.trans hx) hy
    rw [Passage.shown, List.flatMap_append]
    exact ⟨hz, List.append_eq_nil_iff.mpr ⟨hps, hqs⟩⟩

/-- A run on the console. -/
theorem accounts_advance {w : Watched Console} (hadds : Console.Adds x.app.console w) {p : Passage}
    (hstep : x.advance w = some (p, y)) (hp : p.taps = false) : Accounts x [p] y := by
  obtain ⟨d, hd, hpair⟩ := Option.map_eq_some_iff.mp hstep
  obtain ⟨rfl, rfl⟩ := Prod.mk.inj hpair
  have hdrains : ∀ m ∈ w.moments, m.act.drains = false := by
    intro m hm
    have htaps := List.any_eq_false.mp hp m hm
    exact Bool.eq_false_iff.mpr htaps
  obtain ⟨houtput, hchanges, hlog⟩ := hadds hdrains d hd
  have hrecords := List.prefix_iff_eq_append.mp hlog
  refine ⟨?_, ?_, rfl, fun _ => ?_, fun _ hheld => ⟨hheld, rfl⟩⟩
  · simp [houtput]
  · simp [hchanges]
  · simp [hrecords]

theorem adds_loadAtStart (path : String) (c : Console) :
    Console.Adds c (.done (loadAtStart path c)) := by
  have hreport (d : Console) (level : LogLevel) (message : String)
      (houtput : d.output = c.output) (hgrown : Console.Grown c d) :
      Console.Adds c (.done (report d level message)) :=
    Console.adds_done houtput ⟨hgrown.changes, hgrown.log.trans (List.prefix_append _ _)⟩
  have hload := (Console.same_takeLoaded c (Config.loadFile c.vars c.disk path)).output
  have hgrown := Console.grown_takeLoaded c (Config.loadFile c.vars c.disk path)
  unfold loadAtStart Console.loadConfig
  split
  · split
    · next h => rw [h] at hload hgrown; exact hreport _ _ _ hload hgrown
    · next h => rw [h] at hload hgrown; exact hreport _ _ _ hload hgrown
  · exact hreport c _ _ rfl (Console.grown_refl c)

/-- **Each event keeps account**, unless it takes from the output or the changes. -/
theorem step_accounts {e : Event} {p : Passage} (hstep : e.step limit x = some (p, y))
    (hp : p.taps = false) : Accounts x [p] y := by
  cases e with
  | deed d =>
    cases d with
    | call k =>
      refine accounts_advance ?_ hstep hp
      cases k with
      | enter e => exact Console.adds_law.entrance limit _ e
      | operation o => exact Console.adds_law.operation _ o
      | addCommand k => exact Console.adds_law.addCommand _ k
      | files disk => exact Console.adds_same rfl rfl rfl
    | send line =>
      cases hstep
      exact ⟨List.append_nil _, List.append_nil _, rfl, fun _ => List.append_nil _,
        fun _ hheld => ⟨hheld, rfl⟩⟩
    | emit r =>
      cases hstep
      refine ⟨?_, ?_, rfl, fun _ => ?_, fun _ hheld => ⟨hheld, rfl⟩⟩ <;> simp [emit]
  | load =>
    have h := accounts_advance (x := { x with app := { x.app with started := true } })
      (adds_loadAtStart x.app.configPath x.app.console) hstep hp
    exact ⟨h.output, h.changes, h.capturesLog, h.records, h.ignored⟩
  | input =>
    have hadds : Console.Adds x.app.console (Console.watchSent limit x.app.inbox x.app.console) :=
      Console.adds_law.underAny.all (Console.adds_law.execute (Console.adds_law.line limit)) _ _
    have h := accounts_advance (x := { x with app := { x.app with inbox := [] } }) hadds hstep hp
    exact ⟨h.output, h.changes, h.capturesLog, h.records, h.ignored⟩
  | publish =>
    cases hstep
    refine ⟨?_, ?_, rfl, fun _ => ?_, fun _ hheld => ⟨hheld, rfl⟩⟩ <;>
      simp [drain, Console.takeClear, Console.takeOutput, Console.takeChanges]
  | transfer =>
    cases hstep
    refine ⟨List.append_nil _, List.append_nil _, rfl, fun hx => ?_, fun hx hheld => ?_⟩
    · rw [if_pos hx]
      simp
    · rw [hx]
      exact ⟨hheld, rfl⟩
  | forward =>
    cases hstep
    refine ⟨?_, ?_, rfl, fun _ => ?_, fun _ hheld => ⟨rfl, ?_⟩⟩
    · simp [showRecords_eq]
    · simp [showRecords_eq]
    · simp [showRecords_eq]
    · rw [Passage.shown_singleton, hheld]

/-- **Events keep account.** -/
theorem run_accounts : ∀ {es : List Event} {x : Running} {ps : List Passage},
    run limit es x = some (ps, y) → (∀ p ∈ ps, p.taps = false) → Accounts x ps y
  | [], x, ps, hrun, _ => by
    cases hrun
    exact accounts_refl _
  | e :: es, x, ps, hrun, htaps => by
    obtain ⟨p, z, qs, hstep, hrest, rfl⟩ := run_cons_eq_some.mp hrun
    obtain ⟨hp, hqs⟩ := List.forall_mem_cons.mp htaps
    exact (step_accounts hstep hp).trans (run_accounts hrest hqs)

end Accounts

/-! ### Promptness -/

section Prompt
variable {limit : Nat} {x y : Running}

theorem held_deeds : ∀ {ds : List Deed} {x : Running} {ps : List Passage},
    run limit (deeds ds) x = some (ps, y) → y.held = x.held ∧ Passage.shown ps = []
  | [], x, ps, hrun => by
    cases hrun
    exact ⟨rfl, rfl⟩
  | d :: ds, x, ps, hrun => by
    obtain ⟨p, z, qs, hstep, hrest, rfl⟩ := run_cons_eq_some.mp hrun
    obtain ⟨hheld, hshown⟩ := held_deeds hrest
    have hquiet : z.held = x.held ∧ p.forwarded = [] := by
      cases d with
      | call k =>
        obtain ⟨c, -, hpair⟩ := Option.map_eq_some_iff.mp hstep
        obtain ⟨rfl, rfl⟩ := Prod.mk.inj hpair
        exact ⟨rfl, rfl⟩
      | send | emit =>
        cases hstep
        exact ⟨rfl, rfl⟩
    refine ⟨hheld.trans hquiet.1, ?_⟩
    rw [Passage.shown, List.flatMap_cons, hquiet.2]
    exact hshown

/-- **Records are shown promptly**: all that were written before records are handed over are on the
display when that is over. -/
theorem shown_promptly {early : List Event} {inside after : List Deed} {ps : List Passage}
    (hrun : run limit (early ++ .transfer :: (deeds inside ++ .forward :: deeds after)) x =
      some (ps, y))
    (htaps : ∀ p ∈ ps, p.taps = false) (hcaptures : x.app.capturesLog = true) :
    y.held = [] ∧ Passage.shown ps =
      x.held ++ x.app.console.log ++ Passage.records (ps.take early.length) := by
  obtain ⟨qs, z, late, hearly, hlate, rfl⟩ := run_append_eq_some.mp hrun
  obtain ⟨p, u, rest, htransfer, hrest, rfl⟩ := run_cons_eq_some.mp hlate
  obtain ⟨rs, v, last, hinside, hlast, rfl⟩ := run_append_eq_some.mp hrest
  obtain ⟨q, w, ts, hforward, hafter, rfl⟩ := run_cons_eq_some.mp hlast
  have haccounts := run_accounts hearly fun p hp => htaps p (List.mem_append_left _ hp)
  have hrecords := haccounts.records hcaptures
  obtain ⟨hheld, hnone⟩ := held_deeds hinside
  obtain ⟨hheld', hnone'⟩ := held_deeds hafter
  -- what is handed over is all that is held and in the log
  have hall : u.held = z.held ++ z.app.console.log ∧ p.forwarded = [] := by
    cases htransfer
    exact ⟨if_pos (haccounts.capturesLog.trans hcaptures), rfl⟩
  have hforwarded : w.held = [] ∧ q.forwarded = v.held := by
    cases hforward
    exact ⟨rfl, rfl⟩
  refine ⟨hheld'.trans hforwarded.1, ?_⟩
  rw [← length_run hearly, List.take_left, hrecords]
  simp only [Passage.shown, List.flatMap_append, List.flatMap_cons] at hnone hnone' ⊢
  rw [hall.2, hnone, hforwarded.2, hnone', hheld, hall.1]
  simp

end Prompt

/-! ### Delivery -/

theorem shown?_eq_some_iff {r : LogRecord} {l : OutputLine} : r.shown? = some l ↔
    r.target ≠ outputTarget ∧
      ∃ message, r.message.text? = some message ∧ l = ⟨r.level.shownAs, message⟩ := by
  rw [LogRecord.shown?, Option.ite_none_left_eq_some, Option.map_eq_some_iff]
  simp only [ne_eq, eq_comm]

theorem new_queues (settings : Settings) :
    (Console.new settings).output = [] ∧ (Console.new settings).changes = [] :=
  Console.new_induction (P := fun c => c.output = [] ∧ c.changes = []) settings ⟨rfl, rfl⟩
    (fun c v hc => ⟨(Console.same_registerVariable c v).output.trans hc.1,
      (Console.grown_registerVariable c v).changes.trans hc.2⟩)
    fun c k _ hc => ⟨(Console.same_addCommand c k).output.trans hc.1,
      (Console.grown_addCommand c k).changes.trans hc.2⟩

/-- What is delivered in the frames `us` of the application `a`, seen in the passages `ps` that lead
to `y`. -/
structure Delivered (a : App) (setup : List Deed) (us : List Update) (ps : List Passage)
    (y : Running) : Prop where
  output : Passage.displayed ps = Passage.output ps ++ y.app.console.output
  changes : Passage.changed ps = Passage.changes ps ++ y.app.console.changes
  /-- Captured records are shown in the order in which they were written. -/
  records : a.capturesLog = true →
    a.console.log ++ Passage.records ps = Passage.shown ps ++ (y.held ++ y.app.console.log)
  ignored : a.capturesLog = false → Passage.shown ps = []
  /-- All records written before the last frame hands records over are shown when it is over. -/
  prompt : a.capturesLog = true → ∀ us' u, us = us' ++ [u] → y.held = [] ∧
    Passage.shown ps = a.console.log ++
      Passage.records (ps.take (session setup us' ++ u.early).length)
  /-- Records with a message are put on the display, but for those of the console's output. -/
  onDisplay : ∀ (r : LogRecord) (l : OutputLine), r.shown? = some l ↔ r.target ≠ outputTarget ∧
    ∃ message, r.message.text? = some message ∧ l = ⟨r.level.shownAs, message⟩
  /-- Records that are put on the display leave no records. -/
  quiet : ∀ rs c, (showRecords rs c).log = c.log
  /-- Printed messages leave no records but those of the console's output. -/
  mirrored : ∀ p ∈ ps, ∀ m ∈ p.moments, ∀ o, m.act = .operation o → o.isPrinting = true →
    Console.Mirrored m.console (m.console.perform o).2

theorem delivered_of_run {limit : Nat} {a : App} {setup : List Deed} {us : List Update}
    {ps : List Passage} {y : Running} (houtput : a.console.output = [])
    (hchanges : a.console.changes = [])
    (hrun : run limit (session setup us) { app := a } = some (ps, y))
    (htaps : ∀ p ∈ ps, p.taps = false) : Delivered a setup us ps y := by
  have haccounts := run_accounts hrun htaps
  have hdisplayed := haccounts.output
  have hchanged := haccounts.changes
  rw [houtput, List.nil_append] at hdisplayed
  rw [hchanges, List.nil_append] at hchanged
  exact
    { output := hdisplayed
      changes := hchanged
      records := haccounts.records
      ignored := fun hcaptures => (haccounts.ignored hcaptures rfl).2
      prompt := by
        rintro hcaptures us' u rfl
        rw [session_concat] at hrun
        exact shown_promptly hrun htaps hcaptures
      onDisplay := fun _ _ => shown?_eq_some_iff
      quiet := fun rs c => by rw [showRecords_eq]
      mirrored := fun _ _ m _ _ _ ho => Console.mirrored_perform ho m.console }

/-- **Nothing is lost on the way to the display, and nothing comes twice**, whatever the application
does in its frames but taking from the output or the changes. If it acts before the frames only,
these are its frames. -/
theorem session_delivers {limit : Nat} {settings : Settings} {capturesLog : Bool}
    {setup : List Deed} {us : List Update} {ps : List Passage} {y : Running}
    (hrun : run limit (session setup us) { app := .new settings capturesLog } = some (ps, y))
    (htaps : ∀ p ∈ ps, p.taps = false) :
    Delivered (.new settings capturesLog) setup us ps y ∧
      ∀ first ks rest, setup = first ++ ks.map .call →
        us = {} :: rest.map (fun ds => { before := ds }) →
        frames limit (runCalls limit ks) (first :: rest) (.new settings capturesLog) =
          some (ps.filterMap (·.published), y.app) := by
  refine ⟨delivered_of_run (new_queues settings).1 (new_queues settings).2 hrun htaps, ?_⟩
  rintro first ks rest rfl rfl
  rw [frames_eq_run limit first ks rest rfl, hrun]
  rfl

/-- What is printed is mirrored to the log and not shown again from there, and a record that comes
after the records were handed over is shown in the next frame. -/
theorem session_delivers_mirrored :
    let low : LogRecord := ⟨"game", .warn, .formatted "low"⟩
    let late : LogRecord := ⟨"game", .info, .formatted "late"⟩
    let us : List Update := [{ before := [.send "echo hi"], toForward := [.emit late] }, {}, {}]
    let rest : List (List Deed) := [[.send "echo hi"], []]
    (∃ ps y, run 8 (session [.emit low] us) { app := .new {} true } = some (ps, y) ∧
      (Passage.shown ps).map (·.target) =
        ["game", "bevy_console_shell::persist", "console", "console", "game"] ∧
      (Passage.output ps).map (·.message) = ["] echo hi", "hi", "low",
        "No config file found at 'console.cfg', using defaults", "late"] ∧
      Delivered (.new {} true) [.emit low] us ps y) ∧
    ∃ os a, frames 8 (runCalls 8 [.enter (.execute "echo set")]) ([.emit low] :: rest)
        (.new {} true) = some (os, a) ∧
      os.map (fun o => o.output.map (·.message)) = [["] echo set", "set"],
        ["low", "No config file found at 'console.cfg', using defaults", "] echo hi", "hi"],
        []] := by
  intro low late us rest
  constructor
  · have hevaluated : (run 8 (session [.emit low] us) { app := .new {} true }).map (fun r =>
        (r.1.any (·.taps), (Passage.shown r.1).map (·.target),
          (Passage.output r.1).map (·.message))) =
          some (false, ["game", "bevy_console_shell::persist", "console", "console", "game"],
            ["] echo hi", "hi", "low", "No config file found at 'console.cfg', using defaults",
              "late"]) := by decide +kernel
    obtain ⟨⟨ps, y⟩, hrun, hvalue⟩ := Option.map_eq_some_iff.mp hevaluated
    obtain ⟨htaps, hseen⟩ := Prod.mk.inj hvalue
    obtain ⟨hshown, houtput⟩ := Prod.mk.inj hseen
    obtain ⟨hdelivered, -⟩ := session_delivers hrun fun p hp =>
      Bool.eq_false_iff.mpr (List.any_eq_false.mp htaps p hp)
    exact ⟨ps, y, hrun, hshown, houtput, hdelivered⟩
  · have hevaluated : (run 8
        (session ([.emit low] ++ [HostCall.enter (.execute "echo set")].map .call)
          ({} :: rest.map fun ds => { before := ds })) { app := .new {} true }).map (fun r =>
          (r.1.any (·.taps),
            (r.1.filterMap (·.published)).map fun o => o.output.map (·.message))) =
        some (false, [["] echo set", "set"],
          ["low", "No config file found at 'console.cfg', using defaults", "] echo hi", "hi"],
            []]) := by decide +kernel
    obtain ⟨⟨ps, y⟩, hrun, hvalue⟩ := Option.map_eq_some_iff.mp hevaluated
    obtain ⟨htaps, hseen⟩ := Prod.mk.inj hvalue
    obtain ⟨-, hframes⟩ := session_delivers hrun fun p hp =>
      Bool.eq_false_iff.mpr (List.any_eq_false.mp htaps p hp)
    exact ⟨_, _, hframes _ _ _ rfl rfl, hseen⟩

end App

end DevConsole
