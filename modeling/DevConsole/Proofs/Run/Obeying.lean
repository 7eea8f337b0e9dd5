import DevConsole.Proofs.Run.Kept
import DevConsole.Proofs.Run.Reachable
import DevConsole.Proofs.Run.Tables
import DevConsole.Proofs.Table.Names

/-!
# Handlers that obey a policy

If the handlers of all commands obey a policy, they do so throughout a run, and the policy admits
every operation of the run (`obeys_law`). The built-in commands carry out only a few operations, run no lines but those of script
files, and add no commands (`Builtin.within_usual`). So they are careful: they change variables by
assignments, but for `loadconfig`, create only those that are not there yet, and leave the queue of
changes alone (`Builtin.within_of_mem`).
-/

namespace DevConsole

namespace Console

/-! ### The commands of a console -/

theorem commands_withName {α : Type} {c : Console} {name : String} {kind : EntryKind}
    {act : Except ConsoleError α × Console} (h : act.2.commands = c.commands) :
    (c.withName name kind act).2.commands = c.commands := by
  rcases withName_cases c name kind act with hsame | ⟨-, heq⟩
  · exact hsame.commands
  · rw [heq, h]

theorem commands_registerVariable (c : Console) (v : Variable) :
    (c.registerVariable v).2.commands = c.commands := by
  refine commands_withName ?_
  cases c.vars.register v with
  | error e => rfl
  | ok r => dsimp only; split <;> rfl

theorem commands_printing : Printing fun c d => d.commands = c.commands where
  trans h h' := h'.trans h
  print c level message _ := (sameTables_print c level message).commands
  besides _ _ _ _ _ _ := rfl

theorem commands_takeLoaded (c : Console) (r : Except ConsoleError Config.Loaded) :
    (c.takeLoaded r).2.commands = c.commands := by
  rcases takeLoaded_cases c r with hsame | ⟨l, -, hsame⟩
  · exact hsame.commands
  · exact hsame.commands

/-- Only taking out a command changes the table of commands. -/
theorem commands_perform {o : Operation} (ho : ∀ name, o ≠ .removeCommand name) (c : Console) :
    (c.perform o).2.commands = c.commands := by
  cases hwrite : o.isWrite with
  | false => exact (sameTables_perform hwrite c).commands
  | true =>
    cases o with
    | registerVariable v => exact commands_registerVariable c v
    | unregisterVariable h =>
      simp only [perform, unregisterVariable]
      split <;> rfl
    | createVariable name value flags =>
      refine commands_withName ?_
      split <;> rfl
    | setVariable name value => exact commands_printing.setVariable c name value
    | resetVariable name =>
      simp only [perform, resetVariable]
      split <;> rfl
    | assign name value => exact commands_printing.assign c name value
    | setAlias name value =>
      refine commands_withName ?_
      split <;> rfl
    | removeAlias name =>
      simp only [perform, removeAlias]
      split <;> rfl
    | removeCommand name => exact absurd rfl (ho name)
    | takeChanges => rfl
    | loadConfig path => exact commands_takeLoaded c _
    | loadText text path => exact commands_takeLoaded c _
    | _ => cases hwrite

/-- An operation adds no command. -/
theorem mem_commands_perform {c : Console} {o : Operation} {k : Command Handler}
    (hk : k ∈ (c.perform o).2.commands.toList) : k ∈ c.commands.toList := by
  by_cases ho : ∀ name, o ≠ .removeCommand name
  · rwa [commands_perform ho] at hk
  · push Not at ho
    obtain ⟨name, rfl⟩ := ho
    simp only [perform, removeCommand] at hk
    split at hk
    · next l t hremove =>
      obtain ⟨⟨l', r⟩, hr, hpair⟩ := Option.map_eq_some_iff.mp hremove
      obtain ⟨rfl, rfl⟩ := Prod.mk.inj hpair
      obtain ⟨i, -, hi⟩ := Option.bind_eq_some_iff.mp hr
      obtain ⟨e, -, he⟩ := Option.map_eq_some_iff.mp hi
      obtain ⟨-, rfl⟩ := Prod.mk.inj he
      exact List.mem_of_mem_eraseIdx hk
    · exact hk

/-- Adding a command adds no other. -/
theorem mem_commands_addCommand {c : Console} {k l : Command Handler}
    (hl : l ∈ (c.addCommand k).2.commands.toList) : l = k ∨ l ∈ c.commands.toList := by
  unfold addCommand at hl
  rcases withName_cases c k.name .command _ with hsame | ⟨-, heq⟩
  · rw [hsame.commands] at hl
    exact .inr hl
  · rw [heq] at hl
    cases hadd : c.commands.add k with
    | error e =>
      rw [hadd] at hl
      exact .inr hl
    | ok t =>
      rw [hadd] at hl
      obtain ⟨-, -, rfl⟩ := Commands.add_eq_ok hadd
      exact List.mem_cons.mp hl

/-- A new console has the built-in commands. -/
theorem mem_commands_new (settings : Settings) {k : Command Handler}
    (hk : k ∈ (new settings).commands.toList) : k ∈ Builtin.commands := by
  refine new_induction (P := fun c => ∀ k ∈ c.commands.toList, k ∈ Builtin.commands) settings
    (fun _ h => by cases h) (fun c v hc l hl => ?_) (fun c l hl hc m hm => ?_) k hk
  · rw [commands_registerVariable] at hl
    exact hc l hl
  · rcases mem_commands_addCommand hm with rfl | hm
    · exact hl
    · exact hc m hm

/-! ### Runs under a policy -/

theorem Obeys.perform {p : Policy} {c : Console} (h : c.Obeys p) (o : Operation) :
    (c.perform o).2.Obeys p :=
  fun k hk => h k (mem_commands_perform hk)

theorem Obeys.addCommand {p : Policy} {c : Console} (h : c.Obeys p) {k : Command Handler}
    (hk : ∀ args s, (k.handler args).Within p s) : (c.addCommand k).2.Obeys p := by
  intro l hl
  rcases mem_commands_addCommand hl with rfl | hl
  · exact hk
  · exact h l hl

/-- The policy allows what happens at a moment. -/
def Admits (p : Policy) (c : Console) (act : Act) : Prop :=
  ∀ o, act = .operation o → p.allows c.snapshot o

/-- **Throughout a run the handlers obey the policy, and it admits what happens.** -/
theorem obeys_law {p : Policy} (hown : ∀ s o, o.isOwn = true → p.allows s o) :
    PolicyLaw p (Keeps (Obeys p) (Admits p)) where
  own := hown
  obeys c x h hc := h hc hc
  done c := keeps_done id
  stuck c := keeps_stuck
  bind c x f hx hf := hx.bind hf
  operation c o ho := keeps_moment (fun _ o' ho' => by
    obtain rfl : o = o' := Act.operation.inj ho'
    exact ho) fun h => h.perform o
  call c line := keeps_moment (fun _ o ho => by cases ho) id
  addCommand c k hk := keeps_done fun h => h.addCommand hk
  takeLine c := keeps_done id
  record c text recorder _ := keeps_done id
  piped c piped := keeps_done id
  submission c line x _ hx := hx.inside id fun _ => id
  producer c x hx := hx.inside id fun _ => id
  expansion c x _ hx := hx.inside id fun e he => by
    split
    · exact he
    · exact he
  script c x _ hx := hx.inside id fun _ => id

end Console

/-! ### The built-in commands -/

/-- On a console that is seen so, the operation changes no variable but by an assignment or from a
config file, and it leaves the queue of changes. -/
def Operation.Careful (s : Snapshot) : Operation → Prop
  | .registerVariable _ | .unregisterVariable _ | .setVariable .. | .resetVariable _ | .loadText ..
  | .takeChanges => False
  | .createVariable name _ _ => s.vars.contains name = false
  | _ => True

/-- On a console that is seen so, the operation is one of those that built-in commands carry out. -/
def Operation.Usual (s : Snapshot) : Operation → Prop
  | .print level _ => level ≠ .command
  | .createVariable name _ _ => s.vars.contains name = false
  | .note .. | .takePiped | .assign .. | .setAlias .. | .removeAlias _ | .requestClear
  | .startRecording | .stopRecording | .writeScript _ | .saveConfig .. | .loadConfig _ => True
  | _ => False

theorem Operation.Usual.careful {s : Snapshot} {o : Operation} (h : o.Usual s) : o.Careful s := by
  cases o with
  | createVariable name value flags => exact h
  | registerVariable | unregisterVariable | setVariable | resetVariable | loadText | takeChanges =>
    cases h
  | _ => trivial

namespace Policy

/-- Handlers carry out what built-in commands do, run no lines but those of scripts, and add no
commands. -/
def usual : Policy := ⟨fun s o => o.Usual s, False⟩

/-- Handlers are careful with variables. -/
def careful : Policy := ⟨fun s o => o.Careful s, True⟩

/-- Handlers are careful with variables, run no lines but those of scripts, and add no commands. -/
def simple : Policy := ⟨fun s o => o.Careful s, False⟩

theorem own_careful (s : Snapshot) (o : Operation) (h : o.isOwn = true) : o.Careful s := by
  cases o <;> trivial

end Policy

namespace Builtin

open Routine

theorem within_info {s : Snapshot} (message : String) : (info message).Within .usual s :=
  .perform nofun fun _ _ => .done

theorem within_warn {s : Snapshot} (message : String) : (warn message).Within .usual s :=
  .perform nofun fun _ _ => .done

theorem within_error {s : Snapshot} (message : String) : (error message).Within .usual s :=
  .perform nofun fun _ _ => .done

theorem within_infoAll {next : Routine} (h : ∀ s, next.Within .usual s) :
    ∀ (messages : List String) (s : Snapshot), (infoAll messages next).Within .usual s
  | [], s => h s
  | _ :: messages, _ => .perform nofun fun _ => within_infoAll h messages

/-- Messages and nothing after them. -/
theorem within_messages (messages : List String) (s : Snapshot) :
    (infoAll messages).Within .usual s :=
  within_infoAll (fun _ => .done) messages s

variable (args : Args) (s : Snapshot)

theorem within_help : (help args).Within .usual s := by
  unfold help
  split
  · exact within_messages _ s
  · refine .inspect ?_
    split
    · exact within_messages _ s
    · exact within_warn _

theorem within_aliases : (aliases args).Within .usual s := by
  unfold aliases
  split
  · refine .inspect ?_
    split
    · exact within_info _
    · exact within_messages _ s
  · refine .inspect ?_
    split
    · exact within_info _
    · exact within_warn _
  · refine .perform trivial fun r _ => ?_
    cases r with
    | ok u => exact .done
    | error e => exact within_error _

theorem within_unalias : (unalias args).Within .usual s := by
  unfold unalias
  split
  · exact within_warn _
  · refine .perform trivial fun found _ => ?_
    split
    · exact .done
    · exact within_warn _

/-- A variable is created only where there is none. -/
theorem within_set : (set args).Within .usual s := by
  unfold set
  split
  · refine .inspect ?_
    split
    · exact .perform trivial fun _ _ => .done
    · next hfree =>
      refine .perform (Bool.eq_false_iff.mpr hfree) fun r _ => ?_
      cases r with
      | ok u => exact .done
      | error e => exact within_error _
  · exact within_warn _

theorem within_reset : (reset args).Within .usual s := by
  unfold reset
  split
  · exact within_warn _
  · refine .inspect ?_
    split
    · exact within_warn _
    · exact .perform trivial fun _ _ => .done

theorem within_toggle : (toggle args).Within .usual s := by
  unfold toggle
  split
  · exact within_warn _
  · refine .inspect ?_
    split
    · refine .perform trivial fun written _ => ?_
      split
      · exact within_info _
      · exact .done
    · exact within_warn _

theorem within_exec : (exec args).Within .usual s := by
  unfold exec
  split
  · exact within_warn _
  · refine .execFile fun r s => ?_
    cases r with
    | ok n => exact .perform trivial fun _ _ => .done
    | error e => exact within_error _

theorem within_stoprecord : (stoprecord args).Within .usual s := by
  refine .inspect ?_
  split
  · exact .perform trivial fun _ _ => within_info _
  · exact within_warn _

theorem within_writescript : (writescript args).Within .usual s := by
  unfold writescript
  split
  · exact within_warn _
  · refine .perform trivial fun r _ => ?_
    cases r with
    | ok n => exact within_info _
    | error e => exact within_error _

theorem within_writeconfig : (writeconfig args).Within .usual s := by
  refine .inspect (.perform trivial fun r _ => ?_)
  cases r with
  | ok n => exact within_info _
  | error e => exact within_error _

theorem within_loadconfig : (loadconfig args).Within .usual s := by
  refine .inspect (.perform trivial fun r _ => ?_)
  cases r with
  | ok n => exact within_info _
  | error e => exact within_error _

theorem within_grep : (grep args).Within .usual s := by
  unfold grep
  split
  · exact within_warn _
  · refine .perform trivial fun piped s => ?_
    cases piped with
    | some lines => exact within_messages _ s
    | none => exact within_error _

theorem within_sort : (sort args).Within .usual s := by
  refine .perform trivial fun piped s => ?_
  cases piped with
  | some lines => exact within_messages _ s
  | none => exact within_error _

/-- **The built-in commands carry out the usual operations.** -/
theorem within_usual {k : Command Handler} (hk : k ∈ commands) : (k.handler args).Within .usual s := by
  simp only [commands, List.mem_cons, List.not_mem_nil, or_false] at hk
  rcases hk with rfl | rfl | rfl | rfl | rfl | rfl | rfl | rfl | rfl | rfl | rfl | rfl | rfl | rfl |
    rfl | rfl | rfl | rfl | rfl
  · exact within_help args s
  · exact .inspect (within_messages _ s)
  · exact .inspect (within_infoAll (fun _ => within_info _) _ s)
  · exact within_info _
  · exact within_aliases args s
  · exact within_unalias args s
  · exact within_set args s
  · exact within_reset args s
  · exact within_toggle args s
  · exact .inspect (within_messages _ s)
  · exact .perform trivial fun _ _ => .done
  · exact within_exec args s
  · exact .perform trivial fun _ _ => within_info _
  · exact within_stoprecord args s
  · exact within_writescript args s
  · exact within_writeconfig args s
  · exact within_loadconfig args s
  · exact within_grep args s
  · exact within_sort args s

/-- **The built-in commands are simple.** -/
theorem within_of_mem {k : Command Handler} (hk : k ∈ commands) :
    (k.handler args).Within .simple s :=
  Routine.Within.mono (p := .usual) (q := .simple) (fun _ _ => Operation.Usual.careful) id
    (within_usual args s hk)

end Builtin

end DevConsole
