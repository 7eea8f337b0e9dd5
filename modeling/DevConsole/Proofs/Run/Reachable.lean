import DevConsole.Proofs.Run.Rest

/-!
# The calls of the host

A host makes a console and then calls it: it runs lines and scripts, carries out operations and adds
commands, while the files are changed by anyone. The consoles that this leads to are `Reachable`. By
induction on the calls each of them is at rest (`reachable_rest`), so that whatever is printed later
outside of a pipe reaches the display.
-/

namespace DevConsole

/-- A call of the host. -/
inductive HostCall
  /-- Runs lines. -/
  | enter (e : Console.Entrance)
  /-- Carries out an operation. -/
  | operation (o : Operation)
  /-- Adds a command. -/
  | addCommand (command : Command Handler)
  /-- Finds the files changed. -/
  | files (disk : Disk)

/-- The console after a call of the host, unless the call's lines nest too deep. -/
def HostCall.run (limit : Nat) (c : Console) : HostCall → Option Console
  | .enter e => e.run limit c
  | .operation o => some (c.perform o).2
  | .addCommand command => some (c.addCommand command).2
  | .files disk => some { c with disk }

namespace Console

/-- The consoles that calls of the host lead to. -/
inductive Reachable : Console → Prop
  | new (settings : Settings) : Reachable (.new settings)
  | call {c d : Console} {limit : Nat} (k : HostCall) :
    Reachable c → k.run limit c = some d → Reachable d

/-! ### New consoles -/

/-- What adding commands and registering variables keep holds of a new console. -/
theorem new_induction {P : Console → Prop} (settings : Settings) (hbare : P (bare settings))
    (hvariable : ∀ c v, P c → P (c.registerVariable v).2)
    (hcommand : ∀ c k, k ∈ Builtin.commands → P c → P (c.addCommand k).2) :
    P (.new settings) := by
  have hall : ∀ (ks : List (Command Handler)) (c : Console), (∀ k ∈ ks, k ∈ Builtin.commands) →
      P c → P (ks.foldl (fun c k => (c.addCommand k).2) c) := by
    intro ks
    induction ks with
    | nil => exact fun c _ hc => hc
    | cons k ks ih =>
      exact fun c hks hc => ih _ (fun l hl => hks l (List.mem_cons_of_mem k hl))
        (hcommand c k (hks k List.mem_cons_self) hc)
  exact hall _ _ (fun _ h => h) (hvariable _ _ hbare)

theorem new_rest (settings : Settings) : (new settings).activity = .rest :=
  new_induction (P := fun c => c.activity = .rest) settings rfl
    (fun c v hc => (same_registerVariable c v).activity.trans hc)
    fun c k _ hc => (same_addCommand c k).activity.trans hc

/-! ### At rest -/

theorem perform_rest {c : Console} (hc : c.activity = .rest) (o : Operation) :
    (c.perform o).2.activity = .rest := by
  obtain ⟨hcapture, hpiped, haliases, hexec, hdispatching⟩ := abides_perform c o
  rw [hc] at haliases hexec hdispatching
  have hcapture' := hcapture (by rw [hc]; rfl)
  have hpiped' := hpiped (by rw [hc]; rfl)
  cases hactivity : (c.perform o).2.activity with
  | mk capture piped aliasDepth execDepth dispatching =>
    rw [hactivity] at hcapture' hpiped' haliases hexec hdispatching
    subst hcapture' hpiped' haliases hexec hdispatching
    rfl

theorem HostCall.rest_run {limit : Nat} {c d : Console} {k : HostCall} (hc : c.activity = .rest)
    (hd : k.run limit c = some d) : d.activity = .rest := by
  cases k with
  | enter e => exact e.rest_run hc hd
  | operation o => exact Option.some.inj hd ▸ perform_rest hc o
  | addCommand k => exact Option.some.inj hd ▸ (same_addCommand c k).activity.trans hc
  | files disk => exact Option.some.inj hd ▸ hc

theorem Reachable.rest {c : Console} (h : c.Reachable) : c.activity = .rest := by
  induction h with
  | new settings => exact new_rest settings
  | call k _ hk ih => exact HostCall.rest_run ih hk

/-- Without a capture a message reaches the display. -/
theorem output_print {c : Console} (h : c.activity.capture = none) (level : Level)
    (message : String) : (c.print level message).output = c.output ++ [⟨level, message⟩] := by
  unfold print
  rw [h]
  show (c.toSink ⟨level, message⟩).output ++ _ = _
  rw [(same_toSink c _).output]

/-- **Between calls of the host a console is at rest**: nothing is captured or piped, no alias and
no script is running, and no submitted line. So what is printed next reaches the display, and so
does all that a later run prints outside of a stage whose output is captured. -/
theorem reachable_rest (c : Console) (h : c.Reachable) :
    (c.activity.capture = none ∧ c.activity.piped = none ∧ c.activity.aliasDepth = 0 ∧
      c.activity.execDepth = 0 ∧ c.activity.dispatching = false) ∧
    (∀ level message, (c.print level message).output = c.output ++ [⟨level, message⟩]) ∧
    ∀ (limit : Nat) (e : Entrance), ∀ m ∈ (e.watched limit c).moments, .producer ∉ m.scopes →
      ∀ level message,
        (m.console.print level message).output = m.console.output ++ [⟨level, message⟩] := by
  have hrest := h.rest
  have hcapture : c.activity.capture = none := by rw [hrest]; rfl
  refine ⟨?_, output_print hcapture, fun limit e m hm hout => ?_⟩
  · rw [hrest]
    exact ⟨rfl, rfl, rfl, rfl, rfl⟩
  · exact output_print ((settles_law.entrance limit c e).2 hcapture m hm hout)

theorem Reachable.addCommand {c : Console} (h : c.Reachable) (k : Command Handler) :
    (c.addCommand k).2.Reachable := @Reachable.call c _ 0 (.addCommand k) h rfl

theorem Reachable.perform {c : Console} (h : c.Reachable) (o : Operation) :
    (c.perform o).2.Reachable := @Reachable.call c _ 0 (.operation o) h rfl

theorem reachable_telling : telling.Reachable := (Reachable.new {}).addCommand _

/-- A handler that submits a line anew in the middle of a pipeline leaves nothing behind. -/
theorem reachable_rest_telling : ∃ d, (Entrance.nested "tell | grep h").run 5 telling = some d ∧
    d.activity.capture = none ∧ d.activity.piped = none ∧
      (d.print .info "later").output = d.output ++ [⟨.info, "later"⟩] := by
  have hsome : ((Entrance.nested "tell | grep h").run 5 telling).isSome = true := by
    decide +kernel
  obtain ⟨d, hd⟩ := Option.isSome_iff_exists.mp hsome
  have hreach : d.Reachable := .call (.enter (.nested "tell | grep h")) reachable_telling hd
  obtain ⟨⟨hcapture, hpiped, -, -, -⟩, hprint, -⟩ := reachable_rest d hreach
  exact ⟨d, hd, hcapture, hpiped, hprint _ _⟩

end Console

end DevConsole
