import DevConsole.Proofs.Run.Law
import DevConsole.Proofs.Run.Turns

/-!
# Laws of runs with their turns

A relation between a console, the run that starts on it and the turns of the run is a `PipeLaw` if
all that runs are put together from keep it; then it holds of every line (`PipeLaw.line`) and of
every call of the host (`PipeLaw.entrance`). Its steps are those of a `PolicyLaw`, but for the
stages of a statement, which are one step, and for the turns also the beginning of a statement and a
line of a handler. A `TurnLaw` is kept by each stage and its end, so it is kept by the stages
together. All that is known of every run (`Lawful`) can be used of the parts.
-/

namespace DevConsole

theorem Watched.bind_congr {α β : Type} {x : Watched α} {f g : α → Watched β}
    (h : ∀ a, x.result = some a → f a = g a) : x.bind f = x.bind g := by
  obtain ⟨ms, r⟩ := x
  cases r with
  | none => rfl
  | some a => unfold Watched.bind; dsimp only; rw [h a rfl]

namespace Turn

@[simp] theorem following_nil {α : Type} (r : Option α) : following r (fun _ => []) = [] := by
  cases r <;> rfl

end Turn

namespace Console

open Turn (following)

/-! ### All laws at once -/

/-- What holds of every run holds of this one. -/
def Lawful (c : Console) (x : Watched Console) : Prop := ∀ P, Law P → P c x

theorem lawful_law : Law Lawful where
  done c _ law := law.done c
  stuck c _ law := law.stuck c
  bind c x f hx hf P law := law.bind c x f (hx P law) fun d hd => hf d hd P law
  operation c o _ law := law.operation c o
  call c line _ law := law.call c line
  addCommand c k _ law := law.addCommand c k
  takeLine c _ law := law.takeLine c
  record c text recorder hr _ law := law.record c text recorder hr
  piped c piped _ law := law.piped c piped
  submission c line x hc hx P law := law.submission c line x hc (hx P law)
  producer c x hx P law := law.producer c x (hx P law)
  expansion c x hc hx P law := law.expansion c x hc (hx P law)
  script c x hc hx P law := law.script c x hc (hx P law)

/-! ### The end of a stage -/

/-- The word names a command, a variable or an alias. -/
def resolves (c : Console) (word : String) : Bool :=
  (c.commands.get? word).isSome || (c.vars.get? word).isSome || (c.aliases.get? word).isSome

/-- The first word of the stage names a command, a variable or an alias. -/
def knows (c : Console) (text : String) : Bool := (Stage.ofText text).head?.any c.resolves

/-- Watches what a stage runs. -/
def watchInside (watch : LineWatcher) (text : String) (c : Console) : Watched Console :=
  match (Stage.ofText text).head? with
  | none => .done c
  | some head => (watchDispatch watch head (.ofText text) c).map (·.2)

/-- Watches how a stage of the console ends that has run what it runs: it is recorded if it is one
to record. -/
def ended (c : Console) (text : String) (d : Console) : Watched Console :=
  if c.knows text then watchRecord c.recorder.recording (Stage.ofText text).text d else .done d

theorem resolves_of_dispatch {watch : LineWatcher} {head : String} {stage : Stage}
    {c d : Console} {known : Bool} (h : (watchDispatch watch head stage c).result = some (known, d)) :
    c.resolves head = known := by
  have hfst {x : Watched Console} {b : Bool} (hx : (x.map (b, ·)).result = some (known, d)) :
      b = known := by
    obtain ⟨e, -, he⟩ := Option.map_eq_some_iff.mp hx
    exact congrArg Prod.fst he
  unfold watchDispatch at h
  unfold resolves
  cases hcommand : c.commands.get? head with
  | some k =>
    rw [hcommand] at h
    simpa using hfst h
  | none =>
    rw [hcommand] at h
    cases hvar : c.vars.get? head with
    | some v =>
      rw [hvar] at h
      dsimp only at h
      split at h
      · simpa using hfst h
      · simpa using congrArg Prod.fst (Option.some.inj h)
    | none =>
      rw [hvar] at h
      cases halias : c.aliases.get? head with
      | some a =>
        rw [halias] at h
        simpa using hfst h
      | none =>
        rw [halias] at h
        simpa using hfst h

/-- A stage runs what it runs, and then it ends. -/
theorem watchStage_eq (watch : LineWatcher) (text : String) (c : Console) :
    watchStage watch (.ofText text) c = (watchInside watch text c).bind (c.ended text) := by
  unfold watchStage watchInside
  cases hhead : (Stage.ofText text).head? with
  | none =>
    have hknows : c.knows text = false := by simp [knows, hhead]
    show Watched.done c = c.ended text c
    rw [ended, hknows]
    rfl
  | some head =>
    dsimp only
    rw [Watched.bind_map]
    refine Watched.bind_congr fun (known, d) hd => ?_
    have hknows : c.knows text = known := by simpa [knows, hhead] using resolves_of_dispatch hd
    dsimp only
    rw [ended, hknows]

theorem lawful_ended (c : Console) (text : String) (d : Console) : Lawful d (c.ended text d) := by
  unfold ended
  split
  · exact lawful_law.underAny.recordStage _ _ d
  · exact lawful_law.done d

theorem lawful_bind_ended {c : Console} {x : Watched Console} (hx : Lawful c x) (text : String) :
    Lawful c (x.bind (c.ended text)) :=
  lawful_law.bind c x _ hx fun d _ => lawful_ended c text d

/-! ### Laws with turns -/

/-- A relation between a console, the run that starts on it and the turns of the run, kept by all
that runs are made of but stages, if the handlers obey the policy. -/
structure StepLaw (p : Policy) (P : Console → Watched Console → List Turn → Prop) : Prop where
  /-- The policy admits what the dispatcher does itself, but for the echo. -/
  own : ∀ s o, o.isOwn = true → (∀ message, o ≠ .print .command message) → p.allows s o
  /-- The relation need only hold while the handlers obey the policy. -/
  obeys : ∀ c x ts, (c.Obeys p → P c x ts) → P c x ts
  done : ∀ c, P c (.done c) []
  stuck : ∀ c, P c .stuck []
  bind : ∀ c x f ts us, Lawful c x → P c x ts → (∀ d, x.result = some d → P d (f d) (us d)) →
    P c (x.bind f) (ts ++ following x.result us)
  operation : ∀ c o, p.allows c.snapshot o → P c ((watchOperation o c).map (·.2)) []
  call : ∀ c line, P c (watchCall line c) []
  addCommand : ∀ c (k : Command Handler), (∀ args s, (k.handler args).Within p s) →
    P c (.done (c.addCommand k).2) []
  takeLine : ∀ c, P c (.done c.withLineTaken) []
  /-- A statement that has stages begins, and is echoed if it is one to echo. -/
  begins : ∀ c text first rest f ts, stages text = first :: rest →
    P (c.echo text (Stage.ofText first).silent) (f (c.echo text (Stage.ofText first).silent)) ts →
    P c ((watchEcho text (Stage.ofText first).silent c).bind f) (⟨[], c, .statement text⟩ :: ts)
  /-- A line is submitted. -/
  submission : ∀ c line x ts, c.activity.dispatching = false → P (c.submitting line) x ts →
    P c ((x.within .submission).map settled) ts
  /-- The text of an alias runs one deeper; the depth falls back with the outermost one. -/
  expansion : ∀ c x ts, c.activity.aliasDepth < maxAliasDepth →
    P (c.withAliasDepth (c.activity.aliasDepth + 1)) x ts →
    P c ((x.within .expansion).map fun d =>
      if c.activity.aliasDepth = 0 then d.withAliasDepth 0 else d) (ts.map (·.under .expansion))
  /-- The lines of a script run one deeper. -/
  script : ∀ c x ts, c.activity.execDepth < maxExecDepth →
    P (c.withExecDepth (c.activity.execDepth + 1)) x ts →
    P c ((x.within .script).map fun d => d.withExecDepth (d.activity.execDepth - 1))
      (ts.map (·.under .script))
  /-- A line of a handler, which only some policies admit. -/
  handler : p.dispatches → ∀ c x ts, P c x ts → P c x (ts.map (·.under .handler))

/-- The stages of a statement keep the relation if all that stages run keeps it. -/
structure PipeLaw (p : Policy) (P : Console → Watched Console → List Turn → Prop) : Prop
    extends StepLaw p P where
  /-- The stages start on the console with the capture around them. -/
  stages : ∀ watch turns, (∀ line c, Lawful c (watch line c)) →
    (∀ text c, P c (watchInside watch text c) (turnsInside watch turns text c)) →
    ∀ outer s ss piped c, P (c.withCapture outer) (watchStages watch outer (s :: ss) piped c)
      (turnsStages watch turns outer (s :: ss) piped c)

/-- Each stage keeps the relation if what it runs keeps it. -/
structure TurnLaw (p : Policy) (P : Console → Watched Console → List Turn → Prop) : Prop
    extends StepLaw p P where
  piped : ∀ c piped, P c (.done (c.withPiped piped)) []
  /-- The last stage of a statement. -/
  ends : ∀ c text x ts, Lawful c x → P c x ts →
    P c (x.bind (c.ended text)) (ts ++ c.stageTurn text (x.bind (c.ended text)) fun _ => none)
  /-- A stage runs with a capture of its own, hands over the lines in it, and the capture around it
  comes back. -/
  producer : ∀ c d text x ts, c.withCapture (some []) = d → Lawful d x → P d x ts →
    P c (((x.bind (d.ended text)).within .producer).map (·.withCapture c.activity.capture))
      (ts.map (·.under .producer) ++
        d.stageTurn text (x.bind (d.ended text)) fun e => some (e.activity.capture.getD []))

/-- What a stage runs is lawful if what runs lines is. -/
theorem lawful_inside {watch : LineWatcher} (hlawful : ∀ line c, Lawful c (watch line c))
    (text : String) (c : Console) : Lawful c (watchInside watch text c) := by
  unfold watchInside
  cases (Stage.ofText text).head? with
  | none => exact lawful_law.done c
  | some head => exact lawful_law.underAny.dispatch hlawful head _ c

section Laws
variable {p : Policy} {P : Console → Watched Console → List Turn → Prop}

/-! ### Steps -/

namespace StepLaw

variable (law : StepLaw p P)
include law

/-- A run with an answer, and what goes on with the answer. -/
theorem bind_answer {α : Type} {c : Console} {x : Watched (α × Console)}
    {f : α × Console → Watched Console} {ts : List Turn} {u : α × Console → List Turn}
    (hlawful : Lawful c (x.map (·.2))) (hx : P c (x.map (·.2)) ts)
    (hf : ∀ a d, x.result = some (a, d) → P d (f (a, d)) (u (a, d))) :
    P c (x.bind f) (ts ++ following x.result u) := by
  obtain ⟨ms, r⟩ := x
  cases r with
  | none => exact law.bind c _ (fun _ => .stuck) ts (fun _ => []) hlawful hx (by simp)
  | some p =>
    obtain ⟨a, d⟩ := p
    refine law.bind c _ (fun _ => f (a, d)) ts (fun _ => u (a, d)) hlawful hx ?_
    rintro d' hd
    obtain rfl : d = d' := by simpa using hd
    exact hf a d rfl

/-- Nothing takes a turn before the rest of the run. -/
theorem bind_silent {c : Console} {x : Watched Console} {f : Console → Watched Console}
    {u : Console → List Turn} (hlawful : Lawful c x) (hx : P c x [])
    (hf : ∀ d, x.result = some d → P d (f d) (u d)) : P c (x.bind f) (following x.result u) :=
  law.bind c x f [] u hlawful hx hf

/-- The step is done, and the run goes on after it. -/
theorem done_bind {c d : Console} {x : Watched Console} {ts : List Turn}
    (hlawful : Lawful c (.done d)) (hd : P c (.done d) []) (hx : P d x ts) : P c x ts := by
  refine law.bind_silent hlawful hd (f := fun _ => x) (u := fun _ => ts) fun e he => ?_
  obtain rfl : d = e := Option.some.inj he
  exact hx

/-- An operation, and what goes on after it. -/
theorem perform {c : Console} {o : Operation} {f : o.Answer × Console → Watched Console}
    {ts : List Turn} (ho : p.allows c.snapshot o)
    (hf : P (c.perform o).2 (f (c.perform o)) ts) : P c ((watchOperation o c).bind f) ts := by
  refine law.bind_answer (u := fun _ => ts) (lawful_law.operation c o) (law.operation c o ho) ?_
  intro a d hd
  rw [← show c.perform o = (a, d) from Option.some.inj hd]
  obtain rfl : (c.perform o).2 = d := congrArg Prod.snd (Option.some.inj hd)
  exact hf

theorem print {level : Level} (hlevel : level ≠ .command) (message : String) (c : Console) :
    P c (watchPrint level message c) [] :=
  law.operation c (.print level message)
    (law.own _ _ rfl fun _ h => hlevel (Operation.print.inj h).1)

section Dispatch
variable {watch : LineWatcher} {turns : LineTurns} (hlawful : ∀ line c, Lawful c (watch line c))
  (h : ∀ line c, P c (watch line c) (turns line c))
include hlawful h

theorem all : ∀ (lines : List String) (c : Console),
    P c (watchAll watch lines c) (turnsAll watch turns lines c)
  | [], c => law.done c
  | line :: lines, c =>
    law.bind c _ _ _ _ (hlawful line c) (h line c) fun d _ => all lines d

omit hlawful in
theorem nested (line : String) (c : Console) :
    P c (watchNested watch line c) (turnsNested turns line c) := by
  unfold watchNested turnsNested
  dsimp only
  split
  · exact law.done c
  · exact h _ c

omit hlawful in
theorem execute (line : String) (c : Console) :
    P c (watchExecute watch line c) (turnsExecute turns line c) := by
  unfold watchExecute turnsExecute
  dsimp only
  split
  · exact law.done c
  · split
    · exact law.nested h _ c
    · next hd => exact law.submission c _ _ _ (by simpa using hd) (h _ _)

/-- A handler that calls `execute`, and what goes on after it. -/
theorem called (hp : p.dispatches) (line : String) (c : Console) {f : Console → Watched Console}
    {u : Console → List Turn} (hf : ∀ d, P d (f d) (u d)) :
    P c (((watchCall line c).bind (watchExecute watch line)).bind f)
      ((turnsExecute turns line c).map (·.under .handler) ++
        following (watchExecute watch line c).result u) := by
  have hcalled : P c ((watchCall line c).bind (watchExecute watch line))
      (following (watchCall line c).result (turnsExecute turns line)) :=
    law.bind_silent (lawful_law.call c line) (law.call c line) fun d _ => law.execute h line d
  have hlawful' : Lawful c ((watchCall line c).bind (watchExecute watch line)) :=
    lawful_law.bind c _ _ (lawful_law.call c line) fun d _ => lawful_law.execute hlawful line d
  have hbind := law.bind c _ f _ u hlawful' (law.handler hp c _ _ hcalled) fun d _ => hf d
  rwa [Watched.result_bind, watchCall_result, Option.bind_some, Turn.following_some] at hbind

theorem execFile (path : String) (c : Console) :
    P c ((watchExecFile watch path c).map (·.2)) (turnsExecFile watch turns path c) := by
  unfold watchExecFile turnsExecFile
  split
  · rw [Watched.map_map]
    exact (Watched.map_id (watchPrint _ _ c)).symm ▸ law.print (by simp) _ c
  · next hdepth =>
    cases Script.read c.disk path with
    | error e => exact law.done c
    | ok lines =>
      dsimp only
      rw [Watched.map_bind]
      refine law.perform (law.own _ _ rfl fun _ hprint => by cases hprint) ?_
      rw [Watched.map_map]
      exact law.script (c.note .dispatcher .debug _) _ _ (Nat.lt_of_not_le hdepth)
        (law.all hlawful h lines _)

theorem routine : ∀ (r : Routine) (c : Console), r.Within p c.snapshot →
    P c (watchRoutine watch r c) (turnsRoutine watch turns r c)
  | .done, c, _ => law.done c
  | .perform _ next, c, .perform ho hnext =>
    law.perform ho (routine (next _) _ (hnext _ _))
  | .inspect next, c, .inspect hnext => routine (next c.snapshot) c hnext
  | .addCommand name description handler next, c, .addCommand _ hhandler hnext =>
    law.done_bind (lawful_law.addCommand c ⟨name, description, handler⟩)
      (law.addCommand c _ hhandler) (routine (next _) _ (hnext _ _))
  | .execute line next, c, .execute hp hnext =>
    law.called hlawful h hp line c fun d => routine next d (hnext d.snapshot)
  | .nested line next, c, .nested hp hnext =>
    law.bind c (watchNested watch line c) (watchRoutine watch next) _ (turnsRoutine watch turns next)
      (lawful_law.underAny.nested hlawful line c) (law.handler hp c _ _ (law.nested h line c))
      fun d _ => routine next d (hnext d.snapshot)
  | .submit next, c, .submit hp hnext =>
    law.done_bind (lawful_law.takeLine c) (law.takeLine c)
      (law.called hlawful h hp c.line.text c.withLineTaken fun d => routine next d (hnext d.snapshot))
  | .execFile path next, c, .execFile hnext =>
    law.bind_answer (lawful_law.underAny.execFile hlawful path c) (law.execFile hlawful h path c)
      fun answer d _ => routine (next answer) d (hnext answer d.snapshot)

omit hlawful in
theorem expand (name value : String) (args : List String) (c : Console) :
    P c (watchExpansion watch name value args c) (turnsExpansion turns value args c) := by
  unfold watchExpansion turnsExpansion
  split
  · exact law.print (by simp) _ c
  · next hdepth => exact law.expansion c _ _ (Nat.lt_of_not_le hdepth) (h _ _)

theorem command {k : Command Handler} (hk : ∀ args s, (k.handler args).Within p s) (args : Args)
    (c : Console) : P c (watchCommand watch k args c) (turnsCommand watch turns k args c) := by
  unfold watchCommand turnsCommand
  split
  · exact law.print (by simp) _ c
  · exact law.routine hlawful h _ c (hk args _)

theorem dispatch (head : String) (stage : Stage) (c : Console) :
    P c ((watchDispatch watch head stage c).map (·.2)) (turnsDispatch watch turns head stage c) := by
  refine law.obeys c _ _ fun hobeys => ?_
  unfold watchDispatch turnsDispatch
  cases hget : c.commands.get? head with
  | some k =>
    dsimp only
    rw [Watched.map_map, Watched.map_id]
    obtain ⟨i, -, hi⟩ := Option.bind_eq_some_iff.mp hget
    exact law.command hlawful h (hobeys k (List.mem_of_getElem? hi)) _ c
  | none =>
    cases c.vars.get? head with
    | some v =>
      dsimp only
      split
      · rw [Watched.map_map, Watched.map_id]
        exact law.print (by simp) _ c
      · rw [Watched.map_map]
        exact law.operation c _ (law.own _ _ rfl fun _ hprint => by cases hprint)
    | none =>
      cases c.aliases.get? head with
      | some a =>
        dsimp only
        rw [Watched.map_map, Watched.map_id]
        exact law.expand h head _ _ c
      | none =>
        dsimp only
        rw [Watched.map_map, Watched.map_id]
        exact law.print (by simp) _ c

theorem inside (text : String) (c : Console) :
    P c (watchInside watch text c) (turnsInside watch turns text c) := by
  unfold watchInside turnsInside
  cases (Stage.ofText text).head? with
  | none => exact law.done c
  | some head => exact law.dispatch hlawful h head _ c

end Dispatch

end StepLaw

/-! ### Stages -/

namespace TurnLaw

variable (law : TurnLaw p P)
include law

/-- What the stage before has left is replaced first. -/
theorem after_piped {c : Console} {x : Watched Console} {ts : List Turn}
    (piped : Option (List String)) (hx : P (c.withPiped piped) x ts) : P c x ts :=
  law.done_bind (lawful_law.piped c piped) (law.piped c piped) hx

/-- One stage after the other, each with the capture that is made for it. -/
theorem stages {watch : LineWatcher} {turns : LineTurns}
    (hlawful : ∀ line c, Lawful c (watch line c))
    (h : ∀ text c, P c (watchInside watch text c) (turnsInside watch turns text c))
    (outer : Option (List String)) : ∀ (s : String) (ss : List String)
    (piped : Option (List String)) (c : Console),
      P (c.withCapture outer) (watchStages watch outer (s :: ss) piped c)
        (turnsStages watch turns outer (s :: ss) piped c)
  | last, [], piped, c => by
    refine law.after_piped piped ?_
    have hstage := law.ends ((c.withPiped piped).withCapture outer) last _ _
      (lawful_inside hlawful last _) (h last _)
    rw [← watchStage_eq] at hstage
    have hdone := law.bind _ _ (fun d => .done (d.withPiped none)) _ (fun _ => [])
      (lawful_law.stage hlawful (.ofText last) _) hstage fun d _ => law.piped d none
    rw [Turn.following_nil, List.append_nil, ← Watched.map_eq_bind] at hdone
    exact hdone
  | s, next :: ss, piped, c => by
    refine law.after_piped piped ?_
    have hproducer := law.producer ((c.withCapture outer).withPiped piped)
      ((c.withPiped piped).withCapture (some [])) s _ _ rfl (lawful_inside hlawful s _)
      (h s _)
    rw [← watchStage_eq] at hproducer
    have hlawful' := lawful_law.producer ((c.withCapture outer).withPiped piped) _
      (lawful_law.stage hlawful (.ofText s) ((c.withPiped piped).withCapture (some [])))
    rw [watchStages, turnsStages, ← Watched.bind_map _ (fun d => (d, d.withCapture outer))
      (fun p => watchStages watch outer (next :: ss) (some (p.1.activity.capture.getD [])) p.1)]
    · have hbind := law.bind_answer
        (x := ((watchStage watch (.ofText s) ((c.withPiped piped).withCapture (some []))).within
          .producer).map fun d => (d, d.withCapture outer))
        (f := fun p => watchStages watch outer (next :: ss)
          (some (p.1.activity.capture.getD [])) p.1)
        (u := fun p => turnsStages watch turns outer (next :: ss)
          (some (p.1.activity.capture.getD [])) p.1)
        (by rw [Watched.map_map]; exact hlawful') (by rw [Watched.map_map]; exact hproducer)
        fun d d' hd => ?_
      · rwa [Watched.result_map, Watched.result_within, Turn.following_map] at hbind
      · obtain ⟨e, -, he⟩ := Option.map_eq_some_iff.mp hd
        obtain ⟨rfl, rfl⟩ := Prod.mk.inj he
        exact stages hlawful h outer next ss _ e
    · simp
    · simp

/-- A law that each stage keeps is kept by the stages together. -/
theorem pipeLaw : PipeLaw p P where
  toStepLaw := law.toStepLaw
  stages _ _ hlawful h := law.stages hlawful h

end TurnLaw

/-! ### Lines and calls -/

namespace PipeLaw

variable (law : PipeLaw p P)
include law

section Dispatch
variable {watch : LineWatcher} {turns : LineTurns} (hlawful : ∀ line c, Lawful c (watch line c))
  (h : ∀ line c, P c (watch line c) (turns line c))
include hlawful h

theorem statement (text : String) (c : Console) :
    P c (watchStatement watch text c) (turnsStatement watch turns text c) := by
  unfold watchStatement turnsStatement
  cases hstages : DevConsole.stages text with
  | nil => exact law.done c
  | cons first rest =>
    exact law.begins c text first rest _ _ hstages
      (law.stages watch turns hlawful (law.inside hlawful h) _ first rest _
        (c.echo text (Stage.ofText first).silent))

theorem statements : ∀ (texts : List String) (c : Console),
    P c (watchStatements watch texts c) (turnsStatements watch turns texts c)
  | [], c => law.done c
  | text :: texts, c =>
    law.bind c _ _ _ _ (lawful_law.underAny.statement hlawful text c)
      (law.statement hlawful h text c) fun d _ => statements texts d

end Dispatch

/-- **A law with turns holds of every line.** -/
theorem line : ∀ (limit : Nat) (text : String) (c : Console),
    P c (watchLine limit text c) (turnsLine limit text c)
  | 0, _, c => law.statements (fun _ d => lawful_law.stuck d) (fun _ d => law.stuck d) _ c
  | limit + 1, _, c => law.statements (lawful_law.line limit) (line limit) _ c

/-- **A law with turns holds of every call of the host.** -/
theorem entrance (limit : Nat) (c : Console) (e : Entrance) :
    P c (e.watched limit c) (e.turns limit c) := by
  cases e with
  | execute text => exact law.execute (law.line limit) text c
  | submit =>
    exact law.done_bind (lawful_law.takeLine c) (law.takeLine c)
      (law.execute (law.line limit) c.line.text c.withLineTaken)
  | nested text => exact law.nested (law.line limit) text c
  | execFile path => exact law.execFile (lawful_law.line limit) (law.line limit) path c

end PipeLaw

end Laws

end Console

end DevConsole
