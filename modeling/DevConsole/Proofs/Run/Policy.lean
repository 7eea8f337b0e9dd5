import DevConsole.Proofs.Run.Watched

/-!
# Policies for handlers

A policy says what handlers may do: which operations they may carry out on a console that they see in
a certain way, and whether they may run lines and add commands. A routine is `Within` a policy if all
its paths obey it, whatever the answers are.

A run is put together from a few steps: operations, a handler's call, a new command, a recorded
stage, a taken line, and four kinds of scopes, each of which changes what the console is in the
middle of before its inside runs and puts it right afterwards. A relation between a console and the
watched run that starts on it is a `PolicyLaw` if all the steps that the policy admits keep it; then
it holds of every line (`PolicyLaw.line`) and of every call of the host (`PolicyLaw.entrance`).
-/

namespace DevConsole

/-- What handlers may do. -/
structure Policy where
  /-- The operation may be carried out on a console that is seen so. -/
  allows : Snapshot → Operation → Prop
  /-- Handlers may run lines and add commands. -/
  dispatches : Prop

/-- The policy that admits everything. -/
def Policy.any : Policy := ⟨fun _ _ => True, True⟩

/-- The routine obeys the policy when it starts on a console that is seen so. Running a script file
is always allowed. -/
inductive Routine.Within (p : Policy) : Snapshot → Routine → Prop
  | done {s : Snapshot} : Within p s .done
  | perform {s : Snapshot} {o : Operation} {next : o.Answer → Routine} : p.allows s o →
    (∀ a s, Within p s (next a)) → Within p s (.perform o next)
  | inspect {s : Snapshot} {next : Snapshot → Routine} :
    Within p s (next s) → Within p s (.inspect next)
  | addCommand {s : Snapshot} {name : String} {description : Option String}
    {handler : Args → Routine} {next : Except ConsoleError Unit → Routine} : p.dispatches →
    (∀ args s, Within p s (handler args)) → (∀ a s, Within p s (next a)) →
    Within p s (.addCommand name description handler next)
  | execute {s : Snapshot} {line : String} {next : Routine} : p.dispatches →
    (∀ s, Within p s next) → Within p s (.execute line next)
  | nested {s : Snapshot} {line : String} {next : Routine} : p.dispatches →
    (∀ s, Within p s next) → Within p s (.nested line next)
  | submit {s : Snapshot} {next : Routine} : p.dispatches →
    (∀ s, Within p s next) → Within p s (.submit next)
  | execFile {s : Snapshot} {path : String} {next : Except ConsoleError Nat → Routine} :
    (∀ a s, Within p s (next a)) → Within p s (.execFile path next)

namespace Routine

theorem Within.mono {p q : Policy} (hallows : ∀ s o, p.allows s o → q.allows s o)
    (hdispatches : p.dispatches → q.dispatches) {s : Snapshot} {r : Routine} (h : r.Within p s) :
    r.Within q s := by
  induction h with
  | done => exact .done
  | perform ho _ ih => exact .perform (hallows _ _ ho) ih
  | inspect _ ih => exact .inspect ih
  | addCommand hd _ _ ih ih' => exact .addCommand (hdispatches hd) ih ih'
  | execute hd _ ih => exact .execute (hdispatches hd) ih
  | nested hd _ ih => exact .nested (hdispatches hd) ih
  | submit hd _ ih => exact .submit (hdispatches hd) ih
  | execFile _ ih => exact .execFile ih

theorem within_any : ∀ (r : Routine) (s : Snapshot), r.Within .any s
  | .done, _ => .done
  | .perform _ next, _ => .perform trivial fun a => within_any (next a)
  | .inspect next, s => .inspect (within_any (next s) s)
  | .addCommand _ _ handler next, _ =>
    .addCommand trivial (fun args => within_any (handler args)) fun a => within_any (next a)
  | .execute _ next, _ => .execute trivial (within_any next)
  | .nested _ next, _ => .nested trivial (within_any next)
  | .submit next, _ => .submit trivial (within_any next)
  | .execFile _ next, _ => .execFile fun a => within_any (next a)

end Routine

/-- The operations that the dispatcher carries out itself. -/
def Operation.isOwn : Operation → Bool
  | .print .. | .note .. | .assign .. => true
  | _ => false

namespace Console

/-- The handlers of all commands obey the policy. -/
def Obeys (p : Policy) (c : Console) : Prop :=
  ∀ k ∈ c.commands.toList, ∀ args s, (k.handler args).Within p s

/-- A relation between a console and the run that starts on it, kept by all that runs are made of if
the handlers obey the policy. -/
structure PolicyLaw (p : Policy) (P : Console → Watched Console → Prop) : Prop where
  /-- The policy admits what the dispatcher does itself. -/
  own : ∀ s o, o.isOwn = true → p.allows s o
  /-- The relation need only hold while the handlers obey the policy. -/
  obeys : ∀ c x, (c.Obeys p → P c x) → P c x
  done : ∀ c, P c (.done c)
  stuck : ∀ c, P c .stuck
  bind : ∀ c x f, P c x → (∀ d, x.result = some d → P d (f d)) → P c (x.bind f)
  operation : ∀ c o, p.allows c.snapshot o → P c ((watchOperation o c).map (·.2))
  call : ∀ c line, P c (watchCall line c)
  addCommand : ∀ c (k : Command Handler), (∀ args s, (k.handler args).Within p s) →
    P c (.done (c.addCommand k).2)
  takeLine : ∀ c, P c (.done c.withLineTaken)
  record : ∀ c text recorder, c.recorder.record? text = some recorder →
    P c (.done { c with recorder })
  piped : ∀ c piped, P c (.done (c.withPiped piped))
  /-- A line is submitted. -/
  submission : ∀ c line x, c.activity.dispatching = false → P (c.submitting line) x →
    P c ((x.within .submission).map settled)
  /-- A stage runs with a capture of its own, and the one around it comes back. -/
  producer : ∀ c x, P (c.withCapture (some [])) x →
    P c ((x.within .producer).map (·.withCapture c.activity.capture))
  /-- The text of an alias runs one deeper; the depth falls back with the outermost one. -/
  expansion : ∀ c x, c.activity.aliasDepth < maxAliasDepth →
    P (c.withAliasDepth (c.activity.aliasDepth + 1)) x →
    P c ((x.within .expansion).map fun d =>
      if c.activity.aliasDepth = 0 then d.withAliasDepth 0 else d)
  /-- The lines of a script run one deeper. -/
  script : ∀ c x, c.activity.execDepth < maxExecDepth →
    P (c.withExecDepth (c.activity.execDepth + 1)) x →
    P c ((x.within .script).map fun d => d.withExecDepth (d.activity.execDepth - 1))

namespace PolicyLaw

variable {p : Policy} {P : Console → Watched Console → Prop} (law : PolicyLaw p P)
include law

/-- A run with an answer, and what goes on with the answer. -/
theorem bind_answer {α : Type} {c : Console} {x : Watched (α × Console)}
    {f : α × Console → Watched Console} (hx : P c (x.map (·.2)))
    (hf : ∀ a d, x.result = some (a, d) → P d (f (a, d))) : P c (x.bind f) := by
  obtain ⟨ms, r⟩ := x
  cases r with
  | none => exact law.bind c _ (fun _ => .stuck) hx (by simp)
  | some p =>
    obtain ⟨a, d⟩ := p
    refine law.bind c _ (fun _ => f (a, d)) hx ?_
    rintro d' hd
    obtain rfl : d = d' := by simpa using hd
    exact hf a d rfl

/-- What the stage before has left is replaced first. -/
theorem after_piped {c : Console} {x : Watched Console} (piped : Option (List String))
    (hx : P (c.withPiped piped) x) : P c x := by
  rw [← Watched.done_bind (c.withPiped piped) fun _ => x]
  refine law.bind c _ _ (law.piped c piped) fun d hd => ?_
  obtain rfl : c.withPiped piped = d := Option.some.inj hd
  exact hx

theorem print (level : Level) (message : String) (c : Console) :
    P c (watchPrint level message c) :=
  law.operation c (.print level message) (law.own _ _ rfl)

section Dispatch
variable {watch : LineWatcher} (h : ∀ line c, P c (watch line c))
include h

theorem all : ∀ (lines : List String) (c : Console), P c (watchAll watch lines c)
  | [], c => law.done c
  | line :: lines, c => law.bind c _ _ (h line c) fun d _ => all lines d

theorem nested (line : String) (c : Console) : P c (watchNested watch line c) := by
  unfold watchNested
  dsimp only
  split
  · exact law.done c
  · exact h _ c

theorem execute (line : String) (c : Console) : P c (watchExecute watch line c) := by
  unfold watchExecute
  dsimp only
  split
  · exact law.done c
  · split
    · exact law.nested h _ c
    · next hd =>
      exact law.submission c _ _ (by simpa using hd) (h _ _)

theorem execFile (path : String) (c : Console) :
    P c ((watchExecFile watch path c).map (·.2)) := by
  unfold watchExecFile
  split
  · rw [Watched.map_map]
    exact (Watched.map_id (watchPrint _ _ c)).symm ▸ law.print _ _ c
  · next hdepth =>
    cases Script.read c.disk path with
    | error e => exact law.done c
    | ok lines =>
      dsimp only
      rw [Watched.map_bind]
      refine law.bind_answer (law.operation c _ (law.own _ _ rfl)) fun a d hd => ?_
      have hd' : c.note .dispatcher .debug _ = d := congrArg Prod.snd (Option.some.inj hd)
      subst hd'
      rw [Watched.map_map]
      exact law.script (c.note .dispatcher .debug _) _ (Nat.lt_of_not_le hdepth) (law.all h lines _)

theorem routine : ∀ (r : Routine) (c : Console), r.Within p c.snapshot → P c (watchRoutine watch r c)
  | .done, c, _ => law.done c
  | .perform o next, c, .perform ho hnext =>
    law.bind_answer (law.operation c o ho) fun a d _ => routine _ d (hnext a d.snapshot)
  | .inspect next, c, .inspect hnext => routine (next c.snapshot) c hnext
  | .addCommand name description handler next, c, .addCommand _ hhandler hnext =>
    law.bind c (.done (c.addCommand ⟨name, description, handler⟩).2) (watchRoutine watch (next _))
      (law.addCommand c _ hhandler) fun d _ => routine _ d (hnext _ d.snapshot)
  | .execute line next, c, .execute _ hnext => by
    refine law.bind c _ _ (law.bind c _ _ (law.call c line) ?_) fun d _ =>
      routine _ d (hnext d.snapshot)
    intro d _
    exact law.execute h line d
  | .nested line next, c, .nested _ hnext =>
    law.bind c _ _ (law.nested h line c) fun d _ => routine _ d (hnext d.snapshot)
  | .submit next, c, .submit _ hnext => by
    have hcall : P c ((Watched.done c.withLineTaken).bind (watchCall c.line.text)) :=
      law.bind c _ _ (law.takeLine c) fun d _ => law.call d _
    refine law.bind c _ _ (law.bind c _ _ hcall ?_) fun d _ => routine _ d (hnext d.snapshot)
    intro d _
    exact law.execute h _ d
  | .execFile path next, c, .execFile hnext =>
    law.bind_answer (law.execFile h path c) fun a d _ => routine _ d (hnext a d.snapshot)

theorem expand (name value : String) (args : List String) (c : Console) :
    P c (watchExpansion watch name value args c) := by
  unfold watchExpansion
  split
  · exact law.print _ _ c
  · next hdepth => exact law.expansion c _ (Nat.lt_of_not_le hdepth) (h _ _)

theorem command {k : Command Handler} (hk : ∀ args s, (k.handler args).Within p s) (args : Args)
    (c : Console) : P c (watchCommand watch k args c) := by
  unfold watchCommand
  split
  · exact law.print _ _ c
  · exact law.routine h _ c (hk args _)

theorem dispatch (head : String) (stage : Stage) (c : Console) :
    P c ((watchDispatch watch head stage c).map (·.2)) := by
  refine law.obeys c _ fun hobeys => ?_
  unfold watchDispatch
  cases hget : c.commands.get? head with
  | some k =>
    dsimp only
    rw [Watched.map_map, Watched.map_id]
    obtain ⟨i, -, hi⟩ := Option.bind_eq_some_iff.mp hget
    exact law.command h (hobeys k (List.mem_of_getElem? hi)) _ c
  | none =>
    cases c.vars.get? head with
    | some v =>
      dsimp only
      split
      · rw [Watched.map_map, Watched.map_id]
        exact law.print _ _ c
      · rw [Watched.map_map]
        exact law.operation c _ (law.own _ _ rfl)
    | none =>
      cases c.aliases.get? head with
      | some a =>
        dsimp only
        rw [Watched.map_map, Watched.map_id]
        exact law.expand h head _ _ c
      | none =>
        dsimp only
        rw [Watched.map_map, Watched.map_id]
        exact law.print _ _ c

omit h in
theorem recordStage (wasRecording : Bool) (text : String) (c : Console) :
    P c (watchRecord wasRecording text c) := by
  unfold watchRecord
  split
  · cases hr : c.recorder.record? text with
    | some recorder => exact law.record c text recorder hr
    | none => exact law.print _ _ c
  · exact law.done c

theorem stage (s : Stage) (c : Console) : P c (watchStage watch s c) := by
  unfold watchStage
  cases s.head? with
  | none => exact law.done c
  | some head =>
    refine law.bind_answer (law.dispatch h head s c) fun known d _ => ?_
    dsimp only
    split
    · exact law.recordStage _ _ d
    · exact law.done d

/-- The stages start on the console with the capture around them. -/
theorem stages (outer : Option (List String)) : ∀ (s : String) (ss : List String)
    (piped : Option (List String)) (c : Console),
      P (c.withCapture outer) (watchStages watch outer (s :: ss) piped c)
  | last, [], piped, c => by
    refine law.after_piped piped ?_
    rw [watchStages, Watched.map_eq_bind]
    exact law.bind _ _ _ (law.stage h _ _) fun d _ => law.piped d none
  | s, next :: ss, piped, c => by
    refine law.after_piped piped ?_
    rw [watchStages, ← Watched.bind_map _ (fun d => (d, d.withCapture outer))
      (fun p => watchStages watch outer (next :: ss) (some (p.1.activity.capture.getD [])) p.1)]
    · refine law.bind_answer ?_ fun d d' hd => ?_
      · rw [Watched.map_map]
        exact law.producer ((c.withCapture outer).withPiped piped) _ (law.stage h (.ofText s) _)
      · obtain ⟨e, -, he⟩ := Option.map_eq_some_iff.mp hd
        obtain ⟨rfl, rfl⟩ := Prod.mk.inj he
        exact stages outer next ss _ e
    · simp

omit h in
theorem echo (statement : String) (silent : Bool) (c : Console) :
    P c (watchEcho statement silent c) := by
  unfold watchEcho
  split
  · exact law.print _ _ c
  · exact law.done c

theorem statement (text : String) (c : Console) : P c (watchStatement watch text c) := by
  unfold watchStatement
  cases DevConsole.stages text with
  | nil => exact law.done c
  | cons first rest =>
    exact law.bind c _ _ (law.echo text _ c) fun d _ =>
      law.stages h d.activity.capture first rest _ d

theorem statements : ∀ (texts : List String) (c : Console), P c (watchStatements watch texts c)
  | [], c => law.done c
  | text :: texts, c => law.bind c _ _ (law.statement h text c) fun d _ => statements texts d

end Dispatch

/-- **A law under a policy holds of every line.** -/
theorem line : ∀ (limit : Nat) (text : String) (c : Console), P c (watchLine limit text c)
  | 0, _, c => law.statements (fun _ d => law.stuck d) _ c
  | limit + 1, _, c => law.statements (line limit) _ c

/-- **A law under a policy holds of every call of the host.** -/
theorem entrance (limit : Nat) (c : Console) (e : Entrance) : P c (e.watched limit c) := by
  cases e with
  | execute text => exact law.execute (law.line limit) text c
  | submit =>
    rw [Entrance.watched, ← Watched.done_bind c.withLineTaken fun d =>
      watchExecute (watchLine limit) c.line.text d]
    exact law.bind c _ _ (law.takeLine c) fun d _ => law.execute (law.line limit) _ d
  | nested text => exact law.nested (law.line limit) text c
  | execFile path => exact law.execFile (law.line limit) path c

end PolicyLaw

end Console

end DevConsole
