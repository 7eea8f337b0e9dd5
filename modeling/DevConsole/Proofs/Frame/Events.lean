import DevConsole.Proofs.Run.Reachable
import DevConsole.Proofs.Run.Recorded

/-!
# Events of an application

Between the systems of a frame the application itself can do anything with the console: call it,
send it lines and write to the log. So an application goes on from event to event (`Event.step`),
and a frame is what comes out if the application does nothing (`frame_eq_run`). Frames before which
the application does something are the events of a session in which it does nothing else
(`frames_eq_run`).
-/

namespace DevConsole

/-- Watches a call of the host. -/
def HostCall.watched (limit : Nat) (c : Console) : HostCall → Watched Console
  | .enter e => e.watched limit c
  | .operation o => (Console.watchOperation o c).map (·.2)
  | .addCommand command => .done (c.addCommand command).2
  | .files disk => .done { c with disk }

theorem HostCall.watched_result (limit : Nat) (c : Console) (k : HostCall) :
    (k.watched limit c).result = k.run limit c := by
  cases k with
  | enter e => exact e.watched_result limit c
  | operation | addCommand | files => rfl

namespace App

/-! ### Events -/

/-- What the application itself does. -/
inductive Deed
  | call (k : HostCall)
  | send (line : String)
  | emit (r : LogRecord)

/-- What happens in a frame. -/
inductive Event
  | deed (d : Deed)
  /-- The config file is loaded at the start. -/
  | load
  /-- The lines that were sent are run. -/
  | input
  /-- What the console has to publish is taken. -/
  | publish
  /-- The captured records in the log are handed over. -/
  | transfer
  /-- The records that were handed over are put on the display. -/
  | forward

/-- An application in the middle of a frame. -/
structure Running where
  app : App
  /-- The records that were handed over and are not yet on the display. -/
  held : List LogRecord := []

/-- What is seen of an event. -/
structure Passage where
  moments : List Moment := []
  /-- The records written to the log. -/
  captured : List LogRecord := []
  published : Option Published := none
  /-- The records handed to the display. -/
  forwarded : List LogRecord := []

/-- Puts records on the display, as far as they are shown. -/
def showRecords (rs : List LogRecord) (c : Console) : Console :=
  (rs.filterMap (·.shown?)).foldl (fun c l => c.display l.level l.message) c

/-- The application goes on with the console that a run ends on. -/
def Running.advance (x : Running) (w : Watched Console) : Option (Passage × Running) :=
  w.result.map fun c =>
    ({ moments := w.moments, captured := c.log.drop x.app.console.log.length },
      { x with app := { x.app with console := c } })

/-- The application after an event, unless lines nest too deep. -/
def Event.step (limit : Nat) (x : Running) : Event → Option (Passage × Running)
  | .deed (.call k) => x.advance (k.watched limit x.app.console)
  | .deed (.send line) => some ({}, { x with app := x.app.send line })
  | .deed (.emit r) => some ({ captured := [r] }, { x with app := x.app.emit r })
  | .load =>
    { x with app := { x.app with started := true } }.advance
      (.done (loadAtStart x.app.configPath x.app.console))
  | .input =>
    { x with app := { x.app with inbox := [] } }.advance
      (Console.watchSent limit x.app.inbox x.app.console)
  | .publish =>
    some ({ published := some (drain x.app.console).1 },
      { x with app := { x.app with console := (drain x.app.console).2 } })
  | .transfer =>
    some ({},
      { app := { x.app with console := { x.app.console with log := [] } }
        held := if x.app.capturesLog then x.held ++ x.app.console.log else x.held })
  | .forward =>
    some ({ forwarded := x.held },
      { app := { x.app with console := showRecords x.held x.app.console }, held := [] })

/-- The application after events, with all that was seen of them. -/
def run (limit : Nat) : List Event → Running → Option (List Passage × Running)
  | [], x => some ([], x)
  | e :: es, x =>
    (e.step limit x).bind fun (p, y) => (run limit es y).map fun (ps, z) => (p :: ps, z)

theorem run_cons_eq_some {limit : Nat} {e : Event} {es : List Event} {x z : Running}
    {ps : List Passage} : run limit (e :: es) x = some (ps, z) ↔
      ∃ p y qs, e.step limit x = some (p, y) ∧ run limit es y = some (qs, z) ∧ ps = p :: qs := by
  simp only [run, Option.bind_eq_some_iff, Option.map_eq_some_iff, Prod.exists, Prod.mk.injEq]
  constructor
  · rintro ⟨p, y, hstep, qs, _, hrun, rfl, rfl⟩
    exact ⟨p, y, qs, hstep, hrun, rfl⟩
  · rintro ⟨p, y, qs, hstep, hrun, rfl⟩
    exact ⟨p, y, hstep, qs, z, hrun, rfl, rfl⟩

theorem run_append_eq_some {limit : Nat} {fs : List Event} {z : Running} :
    ∀ {es : List Event} {x : Running} {ps : List Passage},
      run limit (es ++ fs) x = some (ps, z) ↔
        ∃ qs y rs, run limit es x = some (qs, y) ∧ run limit fs y = some (rs, z) ∧ ps = qs ++ rs
  | [], x, ps => by
    constructor
    · exact fun h => ⟨[], x, ps, rfl, h, rfl⟩
    · rintro ⟨qs, y, rs, hes, hfs, rfl⟩
      cases hes
      exact hfs
  | e :: es, x, ps => by
    rw [List.cons_append, run_cons_eq_some]
    constructor
    · rintro ⟨p, y, qs, hstep, hrun, rfl⟩
      obtain ⟨qs', y', rs, hes, hfs, rfl⟩ := run_append_eq_some.mp hrun
      exact ⟨p :: qs', y', rs, run_cons_eq_some.mpr ⟨p, y, qs', hstep, hes, rfl⟩, hfs, rfl⟩
    · rintro ⟨qs, y, rs, hes, hfs, rfl⟩
      obtain ⟨p, y', qs', hstep, hes', rfl⟩ := run_cons_eq_some.mp hes
      exact ⟨p, y', qs' ++ rs, hstep, run_append_eq_some.mpr ⟨qs', y, rs, hes', hfs, rfl⟩, rfl⟩

theorem length_run {limit : Nat} : ∀ {es : List Event} {x y : Running} {ps : List Passage},
    run limit es x = some (ps, y) → ps.length = es.length
  | [], _, _, _, h => by cases h; rfl
  | e :: es, x, y, ps, h => by
    obtain ⟨p, z, qs, -, hrun, rfl⟩ := run_cons_eq_some.mp h
    rw [List.length_cons, List.length_cons, length_run hrun]

/-! ### Frames -/

/-- The events for what the application itself does. -/
def deeds (ds : List Deed) : List Event := ds.map .deed

/-- What the application itself does in a frame, around the systems. -/
structure Update where
  before : List Deed := []
  /-- Before what the console has to publish is taken. -/
  toPublish : List Deed := []
  /-- Before the records are handed over. -/
  toTransfer : List Deed := []
  /-- Before the records are put on the display. -/
  toForward : List Deed := []
  after : List Deed := []

namespace Update

/-- What happens in a frame before the records are handed over. -/
def early (u : Update) : List Event :=
  deeds u.before ++ .input :: (deeds u.toPublish ++ .publish :: deeds u.toTransfer)

/-- What happens in a frame. -/
def events (u : Update) : List Event :=
  u.early ++ .transfer :: (deeds u.toForward ++ .forward :: deeds u.after)

end Update

/-- What happens in frames from the start of the application on. -/
def session (setup : List Deed) (us : List Update) : List Event :=
  deeds setup ++ .load :: us.flatMap (·.events)

theorem session_concat (setup : List Deed) (us : List Update) (u : Update) :
    session setup (us ++ [u]) = (session setup us ++ u.early) ++
      .transfer :: (deeds u.toForward ++ .forward :: deeds u.after) := by
  simp [session, Update.events]

theorem showRecords_eq (rs : List LogRecord) (c : Console) :
    showRecords rs c = { c with output := c.output ++ rs.filterMap (·.shown?) } := by
  have hall : ∀ (ls : List OutputLine) (c : Console),
      ls.foldl (fun c l => c.display l.level l.message) c =
        { c with output := c.output ++ ls } := by
    intro ls
    induction ls with
    | nil => intro c; rw [List.foldl_nil, List.append_nil]
    | cons l ls ih => intro c; rw [List.foldl_cons, ih]; simp [Console.display]
  exact hall _ c

/-- What events publish, and the application after them. -/
def outcome (limit : Nat) (es : List Event) (x : Running) : Option (List Published × Running) :=
  (run limit es x).map fun (ps, y) => (ps.filterMap (·.published), y)

theorem map_run (limit : Nat) (es : List Event) (x : Running) :
    (run limit es x).map (fun (ps, y) => (ps.filterMap (·.published), y.app)) =
      (outcome limit es x).map fun (os, y) => (os, y.app) := by
  rw [outcome, Option.map_map]
  rfl

theorem outcome_cons (limit : Nat) (e : Event) (es : List Event) (x : Running) :
    outcome limit (e :: es) x = (e.step limit x).bind fun (p, y) =>
      (outcome limit es y).map fun (os, z) => (p.published.toList ++ os, z) := by
  unfold outcome
  rw [run]
  cases e.step limit x with
  | none => rfl
  | some r =>
    obtain ⟨p, y⟩ := r
    rw [Option.bind_some, Option.bind_some]
    dsimp only
    cases run limit es y with
    | none => rfl
    | some r => cases hp : p.published <;> simp [hp]

/-- Events in two parts. -/
theorem outcome_append (limit : Nat) (fs : List Event) : ∀ (es : List Event) (x : Running),
    outcome limit (es ++ fs) x = (outcome limit es x).bind fun (os, y) =>
      (outcome limit fs y).map fun (os', z) => (os ++ os', z)
  | [], x => (Option.map_id' (x := outcome limit fs x)).symm
  | e :: es, x => by
    rw [List.cons_append, outcome_cons, outcome_cons]
    cases e.step limit x with
    | none => rfl
    | some r =>
      obtain ⟨p, y⟩ := r
      rw [Option.bind_some, Option.bind_some]
      dsimp only
      rw [outcome_append limit fs es y]
      cases outcome limit es y with
      | none => rfl
      | some r =>
        obtain ⟨os, z⟩ := r
        rw [Option.map_some, Option.bind_some, Option.bind_some]
        dsimp only
        rw [Option.map_map]
        exact congrArg (Option.map · _) (funext fun (os', w) => by simp)

/-- The systems of a frame, one right after the other. -/
theorem outcome_systems (limit : Nat) (a : App) :
    outcome limit (Update.events {}) { app := a } = (runSent limit a.inbox a.console).map fun c =>
      ([(drain c).1],
        { app := { a with console := showLog a.capturesLog (drain c).2, inbox := [] } }) := by
  have hevents : Update.events {} = [.input, .publish, .transfer, .forward] := rfl
  have hshow : ∀ c : Console, showLog a.capturesLog c =
      showRecords (if a.capturesLog then c.log else []) { c with log := [] } := by
    intro c
    rw [showRecords_eq, showLog]
    cases a.capturesLog <;> rfl
  rw [hevents]
  cases hsent : runSent limit a.inbox a.console with
  | none => simp [outcome, run, Event.step, Running.advance, Console.watchSent_result, hsent]
  | some c =>
    simp [outcome, run, Event.step, Running.advance, Console.watchSent_result, hsent, hshow]

/-- **A frame is what happens if the application itself does nothing.** -/
theorem frame_eq_run (limit : Nat) (setup : Console → Option Console) (a : App) :
    (frame limit setup a).map (fun (p, b) => ([p], { app := b })) =
      (if a.started then some a.console else setup a.console).bind fun c =>
        outcome limit (if a.started then Update.events {} else .load :: Update.events {})
          { app := { a with console := c } } := by
  by_cases hstarted : a.started = true
  · rw [frame, start, if_pos hstarted, if_pos hstarted, if_pos hstarted, Option.bind_some,
      Option.bind_some, Option.map_map]
    show _ = outcome limit (Update.events {}) { app := a }
    rw [outcome_systems]
    have hkeep : ∀ c, ({ a with console := c, inbox := [], started := true } : App) =
        { a with console := c, inbox := [] } := fun c => by rw [← hstarted]
    exact congrArg (Option.map · _) (funext fun c => by simp [hkeep])
  · rw [frame, start, if_neg hstarted, if_neg hstarted, if_neg hstarted, Option.bind_map,
      Option.map_bind]
    refine Option.bind_congr fun c _ => ?_
    rw [outcome_cons]
    show _ = (outcome limit (Update.events {})
      { app := { a with console := loadAtStart a.configPath c, started := true } }).map _
    rw [outcome_systems, Function.comp_apply, Function.comp_apply, Option.map_map, Option.map_map]
    rfl

/-! ### Frames and what is done before them -/

/-- The application after a deed, unless lines nest too deep. -/
def Deed.run (limit : Nat) (a : App) : Deed → Option App
  | .call k => (k.run limit a.console).map fun c => { a with console := c }
  | .send line => some (a.send line)
  | .emit r => some (a.emit r)

/-- Deeds one after the other. -/
def runDeeds (limit : Nat) : List Deed → App → Option App
  | [], a => some a
  | d :: ds, a => (d.run limit a).bind (runDeeds limit ds)

/-- Calls of the host one after the other. -/
def runCalls (limit : Nat) : List HostCall → Console → Option Console
  | [], c => some c
  | k :: ks, c => (k.run limit c).bind (runCalls limit ks)

/-- Frames, each after what the application itself does before it. -/
def frames (limit : Nat) (setup : Console → Option Console) :
    List (List Deed) → App → Option (List Published × App)
  | [], a => some ([], a)
  | ds :: rest, a =>
    (runDeeds limit ds a).bind fun a => (frame limit setup a).bind fun (p, a) =>
      (frames limit setup rest a).map fun (os, b) => (p :: os, b)

theorem outcome_deed (limit : Nat) (d : Deed) (es : List Event) (x : Running) :
    outcome limit (.deed d :: es) x =
      (d.run limit x.app).bind fun a => outcome limit es { x with app := a } := by
  rw [outcome_cons]
  cases d with
  | call k =>
    rw [Event.step, Running.advance, HostCall.watched_result, Deed.run]
    cases k.run limit x.app.console with
    | none => rfl
    | some c => exact Option.map_id' (x := outcome limit es _)
  | send | emit => exact Option.map_id' (x := outcome limit es _)

/-- What the application itself does publishes nothing. -/
theorem outcome_deeds (limit : Nat) (es : List Event) : ∀ (ds : List Deed) (x : Running),
    outcome limit (deeds ds ++ es) x =
      (runDeeds limit ds x.app).bind fun a => outcome limit es { x with app := a }
  | [], x => rfl
  | d :: ds, x => by
    show outcome limit (.deed d :: (deeds ds ++ es)) x = _
    rw [outcome_deed, runDeeds, Option.bind_assoc]
    exact Option.bind_congr fun a _ => outcome_deeds limit es ds { x with app := a }

theorem runDeeds_calls (limit : Nat) : ∀ (ks : List HostCall) (a : App),
    runDeeds limit (ks.map .call) a =
      (runCalls limit ks a.console).map fun c => { a with console := c }
  | [], a => rfl
  | k :: ks, a => by
    rw [List.map_cons, runDeeds, runCalls, Deed.run, Option.bind_map, Option.map_bind]
    exact Option.bind_congr fun c _ => runDeeds_calls limit ks { a with console := c }

theorem started_runDeeds {limit : Nat} : ∀ {ds : List Deed} {a b : App},
    runDeeds limit ds a = some b → b.started = a.started
  | [], a, b, h => by
    obtain rfl : a = b := Option.some.inj h
    rfl
  | d :: ds, a, b, h => by
    obtain ⟨c, hc, hb⟩ := Option.bind_eq_some_iff.mp h
    refine (started_runDeeds hb).trans ?_
    cases d with
    | call k =>
      obtain ⟨e, -, rfl⟩ := Option.map_eq_some_iff.mp hc
      rfl
    | send | emit => exact Option.some.inj hc ▸ rfl

theorem started_frame {limit : Nat} {setup : Console → Option Console} {a b : App} {p : Published}
    (h : frame limit setup a = some (p, b)) : b.started = true := by
  obtain ⟨c, -, hc⟩ := Option.bind_eq_some_iff.mp h
  obtain ⟨d, -, hd⟩ := Option.map_eq_some_iff.mp hc
  exact (Prod.mk.inj hd).2 ▸ rfl

/-- A frame, and what goes on after it. -/
theorem outcome_frame (limit : Nat) (setup : Console → Option Console) (a : App) (es : List Event) :
    (if a.started then some a.console else setup a.console).bind (fun c =>
        outcome limit ((if a.started then Update.events {} else .load :: Update.events {}) ++ es)
          { app := { a with console := c } }) =
      (frame limit setup a).bind fun (p, b) =>
        (outcome limit es { app := b }).map fun (os, y) => (p :: os, y) := by
  have hframe := congrArg (Option.bind · fun (os, y) =>
    (outcome limit es y).map fun (os', z) => (os ++ os', z)) (frame_eq_run limit setup a)
  dsimp only at hframe
  rw [Option.bind_map, Option.bind_assoc] at hframe
  refine Eq.trans ?_ hframe.symm
  exact Option.bind_congr fun c _ => outcome_append limit es _ _

/-- The frames after the first one. -/
theorem outcome_frames (limit : Nat) (setup : Console → Option Console) :
    ∀ (rest : List (List Deed)) (a : App), a.started = true →
      outcome limit (rest.flatMap fun ds => Update.events { before := ds }) { app := a } =
        (frames limit setup rest a).map fun (os, b) => (os, { app := b })
  | [], a, _ => rfl
  | ds :: rest, a, ha => by
    have hevents : Update.events { before := ds } = deeds ds ++ Update.events {} := by
      simp [Update.events, Update.early, deeds]
    rw [List.flatMap_cons, hevents, List.append_assoc, outcome_deeds, frames, Option.map_bind]
    refine Option.bind_congr fun b hb => ?_
    have hstarted : b.started = true := (started_runDeeds hb).trans ha
    have hframe := outcome_frame limit setup b
      (rest.flatMap fun ds => Update.events { before := ds })
    rw [if_pos hstarted, if_pos hstarted, Option.bind_some] at hframe
    refine hframe.trans ?_
    rw [Function.comp_apply, Option.map_bind]
    refine Option.bind_congr fun (p, d) hd => ?_
    dsimp only
    rw [outcome_frames limit setup rest d (started_frame hd), Function.comp_apply, Option.map_map,
      Option.map_map]
    rfl

/-- **Frames are the events of a session** in which the application itself acts before frames and,
before the config file is loaded, calls the console. -/
theorem frames_eq_run (limit : Nat) (first : List Deed) (ks : List HostCall)
    (rest : List (List Deed)) {a : App} (ha : a.started = false) :
    frames limit (runCalls limit ks) (first :: rest) a =
      (run limit (session (first ++ ks.map .call) ({} :: rest.map fun ds => { before := ds }))
        { app := a }).map fun (ps, y) => (ps.filterMap (·.published), y.app) := by
  have hsession : session (first ++ ks.map .call) ({} :: rest.map fun ds => { before := ds }) =
      deeds first ++ (deeds (ks.map .call) ++
        (.load :: Update.events {} ++ rest.flatMap fun ds => Update.events { before := ds })) := by
    simp [session, deeds, List.flatMap_map]
  rw [map_run, hsession, outcome_deeds, frames, Option.map_bind]
  refine Option.bind_congr fun b hb => ?_
  have hstarted : ¬ b.started = true := by simp [(started_runDeeds hb).trans ha]
  have hframe := outcome_frame limit (runCalls limit ks) b
    (rest.flatMap fun ds => Update.events { before := ds })
  rw [if_neg hstarted, if_neg hstarted] at hframe
  rw [Function.comp_apply, outcome_deeds, runDeeds_calls, Option.bind_map]
  refine Eq.trans ?_ (congrArg (Option.map _) hframe.symm)
  rw [Option.map_bind]
  refine Option.bind_congr fun (p, d) hd => ?_
  rw [Function.comp_apply]
  dsimp only
  rw [outcome_frames limit _ rest d (started_frame hd), Option.map_map, Option.map_map]
  rfl

end App

end DevConsole
