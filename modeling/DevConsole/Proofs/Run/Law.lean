import DevConsole.Proofs.Run.Policy

/-!
# Laws of runs

A relation between a console and the watched run that starts on it is a `Law` if all that runs are
put together from keep it, whatever the handlers do; then it holds of every line, on every console,
with any handlers (`Law.line`), and of every call of the host (`Law.entrance`). It is a law under the
policy that admits everything.
-/

namespace DevConsole

namespace Console

/-- A relation between a console and the run that starts on it, kept by all that runs are made
of. -/
structure Law (P : Console → Watched Console → Prop) : Prop where
  done : ∀ c, P c (.done c)
  stuck : ∀ c, P c .stuck
  bind : ∀ c x f, P c x → (∀ d, x.result = some d → P d (f d)) → P c (x.bind f)
  operation : ∀ c o, P c ((watchOperation o c).map (·.2))
  call : ∀ c line, P c (watchCall line c)
  addCommand : ∀ c command, P c (.done (c.addCommand command).2)
  takeLine : ∀ c, P c (.done c.withLineTaken)
  record : ∀ c text recorder, c.recorder.record? text = some recorder →
    P c (.done { c with recorder })
  piped : ∀ c piped, P c (.done (c.withPiped piped))
  /-- A line is submitted. -/
  submission : ∀ c line x, c.activity.dispatching = false → P (c.submitting line) x →
    P c ((x.within .submission).map settled)
  /-- A stage runs with a capture of its own, and the one around it comes back. -/
  producer : ∀ c x, P (c.withCapture (some [])) x →
    P c ((x.within .producer).map (·.withCapture c.activity.capture))
  /-- The text of an alias runs one deeper; the depth falls back with the outermost one. -/
  expansion : ∀ c x, c.activity.aliasDepth < maxAliasDepth →
    P (c.withAliasDepth (c.activity.aliasDepth + 1)) x →
    P c ((x.within .expansion).map fun d =>
      if c.activity.aliasDepth = 0 then d.withAliasDepth 0 else d)
  /-- The lines of a script run one deeper. -/
  script : ∀ c x, c.activity.execDepth < maxExecDepth →
    P (c.withExecDepth (c.activity.execDepth + 1)) x →
    P c ((x.within .script).map fun d => d.withExecDepth (d.activity.execDepth - 1))

namespace Law

variable {P : Console → Watched Console → Prop} (law : Law P)
include law

theorem underAny : PolicyLaw .any P where
  own _ _ _ := trivial
  obeys _ _ h := h fun k _ args s => Routine.within_any (k.handler args) s
  done := law.done
  stuck := law.stuck
  bind := law.bind
  operation c o _ := law.operation c o
  call := law.call
  addCommand c k _ := law.addCommand c k
  takeLine := law.takeLine
  record := law.record
  piped := law.piped
  submission := law.submission
  producer := law.producer
  expansion := law.expansion
  script := law.script

section Dispatch
variable {watch : LineWatcher} (h : ∀ line c, P c (watch line c))
include h

theorem execute (line : String) (c : Console) : P c (watchExecute watch line c) :=
  law.underAny.execute h line c

theorem routine (r : Routine) (c : Console) : P c (watchRoutine watch r c) :=
  law.underAny.routine h r c (r.within_any _)

theorem stage (s : Stage) (c : Console) : P c (watchStage watch s c) := law.underAny.stage h s c

end Dispatch

/-- **A law holds of every line.** -/
theorem line (limit : Nat) (text : String) (c : Console) : P c (watchLine limit text c) :=
  law.underAny.line limit text c

/-- **A law holds of every call of the host.** -/
theorem entrance (limit : Nat) (c : Console) (e : Entrance) : P c (e.watched limit c) :=
  law.underAny.entrance limit c e

end Law

end Console

end DevConsole
