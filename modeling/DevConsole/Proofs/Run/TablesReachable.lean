import DevConsole.Proofs.Editor.Candidates
import DevConsole.Proofs.Run.Listings
import DevConsole.Proofs.Run.Names

/-!
# The tables of a console come from their own operations

Whatever is done to a console, each of its tables is changed by the operations of that table alone, in
some order, starting without entries (`Reachable.tables`). It is all that listings and completion ask of
the tables: they are grown, and all names are valid. The three tables need not know of each other, so
this also covers consoles whose store of variables is changed directly, past the check that no other
table has a name.
-/

namespace DevConsole

/-! ### Tables -/

theorem Commands.Reachable.sound {H : Type} {t : Commands H} (h : t.Reachable) : t.Sound := by
  induction h with
  | empty => exact sound_empty
  | add _ hadd ih => exact ih.add hadd
  | remove _ hremove ih => exact ih.remove hremove

theorem Aliases.Reachable.sound {t : Aliases} (h : t.Reachable) : t.Sound := by
  induction h with
  | empty => exact sound_empty
  | set _ hset ih => exact ih.set hset
  | remove _ hremove ih => exact ih.remove hremove

namespace Console

/-- Each table is one that its own operations lead to. -/
structure TablesReachable (c : Console) : Prop where
  commands : c.commands.Reachable
  vars : c.vars.Reachable
  aliases : c.aliases.Reachable

namespace TablesReachable

variable {c d : Console} (h : c.TablesReachable)
include h

theorem congr (hcommands : d.commands = c.commands) (hvars : d.vars = c.vars)
    (haliases : d.aliases = c.aliases) : d.TablesReachable where
  commands := hcommands ▸ h.commands
  vars := hvars ▸ h.vars
  aliases := haliases ▸ h.aliases

theorem of_sameTables (hd : SameTables c d) : d.TablesReachable :=
  h.congr hd.commands hd.vars hd.aliases

theorem withCommands {t : Commands Handler} (ht : t.Reachable) :
    TablesReachable { c with commands := t } where
  commands := ht
  vars := h.vars
  aliases := h.aliases

theorem withVars {s : Variables} (hs : s.Reachable) : TablesReachable { c with vars := s } where
  commands := h.commands
  vars := hs
  aliases := h.aliases

theorem withAliases {t : Aliases} (ht : t.Reachable) : TablesReachable { c with aliases := t } where
  commands := h.commands
  vars := h.vars
  aliases := ht

/-- What is done with a name is done to the console as it is. -/
theorem withName {α : Type} {name : String} {kind : EntryKind} {act : Except ConsoleError α × Console}
    (hact : act.2.TablesReachable) : (c.withName name kind act).2.TablesReachable := by
  rcases withName_cases c name kind act with hsame | ⟨-, heq⟩
  · exact h.of_sameTables hsame
  · exact heq ▸ hact

/-! ### Operations -/

theorem addCommand (k : Command Handler) : (c.addCommand k).2.TablesReachable := by
  refine h.withName ?_
  cases hadd : c.commands.add k with
  | error e => exact h
  | ok t => exact h.withCommands (.add h.commands hadd)

theorem removeCommand (name : String) : (c.removeCommand name).2.TablesReachable := by
  unfold Console.removeCommand
  cases hremove : c.commands.remove? name with
  | none => exact h
  | some p => exact h.withCommands (.remove h.commands hremove)

theorem registerVariable (v : Variable) : (c.registerVariable v).2.TablesReachable := by
  refine h.withName ?_
  cases hregister : c.vars.register v with
  | error e => exact h
  | ok r =>
    have hvars := h.withVars (.register h.vars hregister)
    dsimp only
    split <;> exact hvars.congr rfl rfl rfl

theorem unregisterVariable (handle : Handle) : (c.unregisterVariable handle).2.TablesReachable := by
  unfold Console.unregisterVariable
  cases hunregister : c.vars.unregister handle with
  | none => exact h
  | some p => exact h.withVars (.unregister h.vars hunregister)

theorem createVariable (name : String) (value : Value) (flags : Flags) :
    (c.createVariable name value flags).2.TablesReachable := by
  refine h.withName ?_
  cases hcreate : c.vars.create name value flags with
  | error e => exact h
  | ok s => exact h.withVars (.create h.vars hcreate)

theorem setVariable (name : String) (value : Value) : (c.setVariable name value).2.TablesReachable := by
  unfold Console.setVariable
  cases hset : c.vars.set? name value with
  | none => exact h
  | some s => exact h.withVars (.set h.vars hset)

theorem resetVariable (name : String) : (c.resetVariable name).2.TablesReachable := by
  unfold Console.resetVariable
  cases hreset : c.vars.reset? name with
  | none => exact h
  | some s => exact h.withVars (.reset h.vars hreset)

theorem assign (name value : String) : (c.assign name value).2.TablesReachable := by
  unfold Console.assign
  split
  · exact h.of_sameTables (sameTables_print c _ _)
  · next v _ =>
    split
    · exact h.of_sameTables (sameTables_print c _ _)
    · split
      · exact h.of_sameTables (sameTables_print c _ _)
      · have hset := h.setVariable v.name (.text value)
        have hafter := sameTables_afterWrite (c.setVariable v.name (.text value)).2 v.name v.flags
        exact hset.congr hafter.commands hafter.vars hafter.aliases

theorem setAlias (name value : String) : (c.setAlias name value).2.TablesReachable := by
  refine h.withName ?_
  cases hset : c.aliases.set name value with
  | error e => exact h
  | ok t => exact h.withAliases (.set h.aliases hset)

theorem removeAlias (name : String) : (c.removeAlias name).2.TablesReachable := by
  unfold Console.removeAlias
  cases hremove : c.aliases.remove? name with
  | none => exact h
  | some p => exact h.withAliases (.remove h.aliases hremove)

/-- Loading sets variables one after another. -/
theorem takeLoaded {text path : String} {r : Except ConsoleError Config.Loaded}
    (hr : ∀ l, r = .ok l → Config.load c.vars text path = .ok l) :
    (c.takeLoaded r).2.TablesReachable := by
  rcases takeLoaded_cases c r with hsame | ⟨l, rfl, hsame⟩
  · exact h.of_sameTables hsame
  · have hload := hr l rfl
    unfold Config.load at hload
    cases htokens : Config.tokens text with
    | error e => rw [htokens] at hload; cases hload
    | ok ts =>
      rw [htokens] at hload
      obtain rfl := Except.ok.inj hload
      have hassigned : (Config.assign { store := c.vars } ts).store.Reachable :=
        Config.assign_preserves (fun _ _ _ _ _ hs hset => .set hs hset) h.vars
      exact (h.withVars hassigned).of_sameTables hsame

theorem loadText (text path : String) : (c.loadText text path).2.TablesReachable :=
  h.takeLoaded fun _ hl => hl

theorem loadConfig (path : String) : (c.loadConfig path).2.TablesReachable := by
  unfold Console.loadConfig Config.loadFile
  cases c.disk.readText path with
  | error fault => exact h
  | ok text => exact h.takeLoaded fun _ hl => hl

theorem perform (o : Operation) : (c.perform o).2.TablesReachable := by
  cases hwrite : o.isWrite with
  | false => exact h.of_sameTables (sameTables_perform hwrite c)
  | true =>
    cases o with
    | registerVariable v => exact h.registerVariable v
    | unregisterVariable handle => exact h.unregisterVariable handle
    | createVariable name value flags => exact h.createVariable name value flags
    | setVariable name value => exact h.setVariable name value
    | resetVariable name => exact h.resetVariable name
    | assign name value => exact h.assign name value
    | setAlias name value => exact h.setAlias name value
    | removeAlias name => exact h.removeAlias name
    | removeCommand name => exact h.removeCommand name
    | takeChanges => exact h.congr rfl rfl rfl
    | loadConfig path => exact h.loadConfig path
    | loadText text path => exact h.loadText text path
    | _ => cases hwrite

/-! ### What listings and completion ask of the tables -/

theorem grown : c.TablesGrown where
  commands := h.commands.grown
  vars := h.vars.grown
  aliases := h.aliases.grown

theorem isName {name : String} (hname : name ∈ c.names) : isName name = true := by
  rcases List.mem_append.mp hname with hname | hname
  · rcases List.mem_append.mp hname with hname | hname
    · obtain ⟨k, hk, rfl⟩ := List.mem_map.mp hname
      exact h.commands.sound.isName k hk
    · obtain ⟨v, hv, rfl⟩ := List.mem_map.mp hname
      exact h.vars.sound.isName v hv
  · obtain ⟨a, ha, rfl⟩ := List.mem_map.mp hname
    exact (h.aliases.sound.proper a ha).isName

end TablesReachable

theorem mem_names_iff {c : Console} {name : String} :
    name ∈ c.names ↔ IsRegistered c.commands c.vars c.aliases name := by
  rw [names, List.mem_append, List.mem_append, List.mem_map, List.mem_map, List.mem_map, or_assoc]
  rfl

/-! ### Runs and calls of the host -/

theorem kept_tablesReachable : Kept TablesReachable where
  operation o h := h.perform o
  addCommand k h := h.addCommand k
  takeLine h := h.congr rfl rfl rfl
  record _ h := h.congr rfl rfl rfl
  piped _ h := h.congr rfl rfl rfl
  capture _ h := h.congr rfl rfl rfl
  submitting _ h := h.congr rfl rfl rfl
  settled h := h.congr rfl rfl rfl
  expanding _ h := h.congr rfl rfl rfl
  expanded h := h.congr rfl rfl rfl
  entering _ h := h.congr rfl rfl rfl
  leaving h := h.congr rfl rfl rfl

theorem HostCall.tables_run {c d : Console} {limit : Nat} {k : HostCall} (hc : c.TablesReachable)
    (hd : k.run limit c = some d) : d.TablesReachable := by
  cases k with
  | enter e =>
    exact (kept_tablesReachable.law.entrance limit c e hc).2 d ((e.watched_result limit c).trans hd)
  | operation o => exact Option.some.inj hd ▸ hc.perform o
  | addCommand k => exact Option.some.inj hd ▸ hc.addCommand k
  | files disk => exact Option.some.inj hd ▸ hc.congr rfl rfl rfl

/-- **Whatever the host does, the tables are changed by their own operations alone.** -/
theorem Reachable.tables {c : Console} (h : c.Reachable) : c.TablesReachable := by
  induction h with
  | new settings =>
    exact new_induction settings ⟨.empty, .empty, .empty⟩ (fun _ v hc => hc.registerVariable v)
      fun _ k _ hc => hc.addCommand k
  | call k _ hk ih => exact HostCall.tables_run ih hk

end Console

end DevConsole
