import DevConsole.Proofs.Config.Loading
import DevConsole.Proofs.Run.Kept
import DevConsole.Proofs.Run.Reachable
import DevConsole.Proofs.Run.Tables
import DevConsole.Proofs.Table.Names

/-!
# A name means one thing

Commands, variables and aliases share one space of names. On a sound console each of the three
tables is sound and no name is in two of them. An operation that brings in a name makes sure that no
other table has it, and the others bring in none, so all operations keep a console sound
(`Sound.perform`), and with them all runs and calls of the host. So on every reachable console no two
entries have the same name (`reachable_unambiguous`).
-/

namespace DevConsole

namespace Console

/-! ### One kind for each name -/

/-- An entry of the kind has the name. -/
def has (c : Console) : EntryKind → String → Bool
  | .command => c.commands.contains
  | .variable => c.vars.contains
  | .alias => c.aliases.contains

/-- A name belongs to one kind of entries at most. -/
def Apart (c : Console) : Prop :=
  ∀ kind kind' name, c.has kind name = true → c.has kind' name = true → kind = kind'

theorem has_congr (c : Console) (kind : EntryKind) {a b : String} (h : Text.sameName a b = true) :
    c.has kind a = c.has kind b := by
  cases kind <;> exact Registry.contains_congr _ h

/-- A name is free for a kind if no other kind has it. -/
theorem takenBy_eq_none {c : Console} {name : String} {kind : EntryKind} :
    c.takenBy name kind = none ↔ ∀ kind', c.has kind' name = true → kind' = kind := by
  constructor
  · intro h kind' hkind'
    by_contra hne
    obtain ⟨hcommands, hvars, haliases⟩ := free_of_takenBy h
    cases kind' with
    | command => exact absurd hkind' (by simp [has, hcommands (Ne.symm hne)])
    | «variable» => exact absurd hkind' (by simp [has, hvars (Ne.symm hne)])
    | «alias» => exact absurd hkind' (by simp [has, haliases (Ne.symm hne)])
  · intro h
    have hcommands : c.commands.contains name = true → .command = kind := h .command
    have hvars : c.vars.contains name = true → .variable = kind := h .variable
    have haliases : c.aliases.contains name = true → .alias = kind := h .alias
    unfold takenBy
    rw [if_neg, if_neg, if_neg] <;> rw [Bool.and_eq_true, bne_iff_ne]
    · exact fun ⟨hc, hne⟩ => hne (haliases hc).symm
    · exact fun ⟨hc, hne⟩ => hne (hvars hc).symm
    · exact fun ⟨hc, hne⟩ => hne (hcommands hc).symm

variable {c d : Console}

theorem Apart.free (h : c.Apart) (kind : EntryKind) {name : String} (hname : c.has kind name = true) :
    c.takenBy name kind = none :=
  takenBy_eq_none.mpr fun kind' hkind' => h kind' kind name hkind' hname

/-- The spelling of a free name does not matter. -/
theorem takenBy_sameName {kind : EntryKind} {a b : String} (hsame : Text.sameName a b = true)
    (h : c.takenBy a kind = none) : c.takenBy b kind = none := by
  refine takenBy_eq_none.mpr fun kind' hkind' => takenBy_eq_none.mp h kind' ?_
  rw [c.has_congr kind' hsame]
  exact hkind'

/-- One table changes, and the names that it has then were free for it. -/
theorem Apart.update (h : c.Apart) (kind : EntryKind)
    (hother : ∀ kind' name, kind' ≠ kind → d.has kind' name = true → c.has kind' name = true)
    (hkind : ∀ name, d.has kind name = true → c.takenBy name kind = none) : d.Apart := by
  intro k k' name hk hk'
  by_cases hkk : k = kind
  · by_cases hkk' : k' = kind
    · rw [hkk, hkk']
    · subst hkk
      exact (takenBy_eq_none.mp (hkind name hk) k' (hother k' name hkk' hk')).symm
  · by_cases hkk' : k' = kind
    · subst hkk'
      exact takenBy_eq_none.mp (hkind name hk') k (hother k name hkk hk)
    · exact h k k' name (hother k name hkk hk) (hother k' name hkk' hk')

/-! ### Sound consoles -/

/-- The tables are sound, and a name belongs to one of them at most. -/
structure Sound (c : Console) : Prop where
  commands : c.commands.Sound
  vars : c.vars.Sound
  aliases : c.aliases.Sound
  apart : c.Apart

theorem Sound.congr (h : c.Sound) (hcommands : d.commands = c.commands) (hvars : d.vars = c.vars)
    (haliases : d.aliases = c.aliases) : d.Sound where
  commands := hcommands ▸ h.commands
  vars := hvars ▸ h.vars
  aliases := haliases ▸ h.aliases
  apart kind kind' name hkind hkind' := by
    have hhas : ∀ k, d.has k name = c.has k name := by
      intro k
      cases k
      · exact congrArg (Commands.contains · name) hcommands
      · exact congrArg (Variables.contains · name) hvars
      · exact congrArg (Aliases.contains · name) haliases
    exact h.apart kind kind' name (hhas kind ▸ hkind) (hhas kind' ▸ hkind')

theorem Sound.of_sameTables (h : c.Sound) (hd : SameTables c d) : d.Sound :=
  h.congr hd.commands hd.vars hd.aliases

theorem Sound.withCommands (h : c.Sound) {t : Commands Handler} (ht : t.Sound)
    (hnames : ∀ name, t.contains name = true → c.takenBy name .command = none) :
    Sound { c with commands := t } where
  commands := ht
  vars := h.vars
  aliases := h.aliases
  apart := h.apart.update .command (fun kind' _ hne hname => by cases kind' <;> trivial) hnames

theorem Sound.withVars (h : c.Sound) {s : Variables} (hs : s.Sound)
    (hnames : ∀ name, s.contains name = true → c.takenBy name .variable = none) :
    Sound { c with vars := s } where
  commands := h.commands
  vars := hs
  aliases := h.aliases
  apart := h.apart.update .variable (fun kind' _ hne hname => by cases kind' <;> trivial) hnames

theorem Sound.withAliases (h : c.Sound) {t : Aliases} (ht : t.Sound)
    (hnames : ∀ name, t.contains name = true → c.takenBy name .alias = none) :
    Sound { c with aliases := t } where
  commands := h.commands
  vars := h.vars
  aliases := ht
  apart := h.apart.update .alias (fun kind' _ hne hname => by cases kind' <;> trivial) hnames

/-- The names after an operation that brings in a free one are free. -/
theorem Apart.free_or (h : c.Apart) {kind : EntryKind} {new name : String}
    (hfree : c.takenBy new kind = none)
    (hname : Text.sameName new name = true ∨ c.has kind name = true) :
    c.takenBy name kind = none :=
  hname.elim (fun hsame => takenBy_sameName hsame hfree) (h.free kind)

/-! ### Operations -/

theorem Sound.addCommand (h : c.Sound) (k : Command Handler) : (c.addCommand k).2.Sound := by
  rcases withName_cases c k.name .command _ with hsame | ⟨hfree, heq⟩
  · exact h.of_sameTables hsame
  · unfold Console.addCommand
    rw [heq]
    cases hadd : c.commands.add k with
    | error e => exact h
    | ok t =>
      obtain ⟨-, hnew, rfl⟩ := Commands.add_eq_ok hadd
      exact h.withCommands (h.commands.add hadd) fun name hname =>
        h.apart.free_or hfree ((h.commands.registry.contains_insert k hnew).mp hname)

theorem Sound.removeCommand (h : c.Sound) (name : String) : (c.removeCommand name).2.Sound := by
  unfold Console.removeCommand
  cases hremove : c.commands.remove? name with
  | none => exact h
  | some p =>
    obtain ⟨k, t⟩ := p
    obtain ⟨i, hi⟩ := Commands.remove?_eq_some hremove
    exact h.withCommands (h.commands.remove hremove) fun n hn =>
      h.apart.free .command (h.commands.registry.contains_removeAt? hi hn)

theorem Sound.registerVariable (h : c.Sound) (v : Variable) : (c.registerVariable v).2.Sound := by
  rcases withName_cases c v.name .variable _ with hsame | ⟨hfree, heq⟩
  · exact h.of_sameTables hsame
  · unfold Console.registerVariable
    rw [heq]
    cases hregister : c.vars.register v with
    | error e => exact h
    | ok r =>
      have hvars : Sound { c with vars := r.store } :=
        h.withVars (h.vars.register hregister) fun name hname =>
          h.apart.free_or hfree (h.vars.contains_register hregister hname)
      dsimp only
      split <;> exact hvars.congr rfl rfl rfl

theorem Sound.unregisterVariable (h : c.Sound) (handle : Handle) :
    (c.unregisterVariable handle).2.Sound := by
  unfold Console.unregisterVariable
  cases hunregister : c.vars.unregister handle with
  | none => exact h
  | some p =>
    obtain ⟨v, s⟩ := p
    obtain ⟨hs, hnames⟩ := h.vars.unregister hunregister
    exact h.withVars hs fun name hname => h.apart.free .variable (hnames name hname)

theorem Sound.createVariable (h : c.Sound) (name : String) (value : Value) (flags : Flags) :
    (c.createVariable name value flags).2.Sound := by
  rcases withName_cases c name .variable _ with hsame | ⟨hfree, heq⟩
  · exact h.of_sameTables hsame
  · unfold Console.createVariable
    rw [heq]
    cases hcreate : c.vars.create name value flags with
    | error e => exact h
    | ok s =>
      exact h.withVars (h.vars.create hcreate) fun n hn =>
        h.apart.free_or hfree (h.vars.contains_create hcreate hn)

/-- The names stay while values change. -/
theorem Sound.withValues (h : c.Sound) {s : Variables} (hs : s.Sound)
    (hnames : ∀ name, s.contains name = c.vars.contains name) : Sound { c with vars := s } :=
  h.withVars hs fun name hname => h.apart.free .variable ((hnames name).symm.trans hname)

theorem Sound.setVariable (h : c.Sound) (name : String) (value : Value) :
    (c.setVariable name value).2.Sound := by
  unfold Console.setVariable
  cases hset : c.vars.set? name value with
  | none => exact h
  | some s =>
    refine h.withValues ?_ (Variables.contains_set? hset)
    rw [Variables.set?_eq_some hset]
    exact h.vars.modify fun _ => rfl

theorem Sound.resetVariable (h : c.Sound) (name : String) : (c.resetVariable name).2.Sound := by
  unfold Console.resetVariable
  cases hreset : c.vars.reset? name with
  | none => exact h
  | some s =>
    refine h.withValues ?_ (Variables.contains_reset? hreset)
    rw [Variables.reset?_eq_some hreset]
    exact h.vars.modify fun _ => rfl

theorem Sound.assign (h : c.Sound) (name value : String) : (c.assign name value).2.Sound := by
  unfold Console.assign
  split
  · exact h.of_sameTables (sameTables_print c _ _)
  · next v _ =>
    split
    · exact h.of_sameTables (sameTables_print c _ _)
    · split
      · exact h.of_sameTables (sameTables_print c _ _)
      · have hset := h.setVariable v.name (.text value)
        have hafter := sameTables_afterWrite (c.setVariable v.name (.text value)).2 v.name v.flags
        exact hset.congr hafter.commands hafter.vars hafter.aliases

theorem Sound.setAlias (h : c.Sound) (name value : String) : (c.setAlias name value).2.Sound := by
  rcases withName_cases c name .alias _ with hsame | ⟨hfree, heq⟩
  · exact h.of_sameTables hsame
  · unfold Console.setAlias
    rw [heq]
    cases hset : c.aliases.set name value with
    | error e => exact h
    | ok t =>
      exact h.withAliases (h.aliases.set hset) fun n hn =>
        h.apart.free_or hfree (h.aliases.contains_set hset hn)

theorem Sound.removeAlias (h : c.Sound) (name : String) : (c.removeAlias name).2.Sound := by
  unfold Console.removeAlias
  cases hremove : c.aliases.remove? name with
  | none => exact h
  | some p =>
    obtain ⟨a, t⟩ := p
    obtain ⟨i, hi⟩ := Aliases.remove?_eq_some hremove
    exact h.withAliases (h.aliases.remove hremove) fun n hn =>
      h.apart.free .alias (h.aliases.registry.contains_removeAt? hi hn)

/-- Loading changes values and no names. -/
theorem Sound.takeLoaded (h : c.Sound) {text path : String} {r : Except ConsoleError Config.Loaded}
    (hr : ∀ l, r = .ok l → Config.load c.vars text path = .ok l) : (c.takeLoaded r).2.Sound := by
  rcases takeLoaded_cases c r with hsame | ⟨l, rfl, hsame⟩
  · exact h.of_sameTables hsame
  · have hload := hr l rfl
    unfold Config.load at hload
    cases htokens : Config.tokens text with
    | error e => rw [htokens] at hload; cases hload
    | ok ts =>
      rw [htokens] at hload
      obtain rfl := Except.ok.inj hload
      have hassigned : (Config.assign { store := c.vars } ts).store.Sound ∧
          ∀ name, (Config.assign { store := c.vars } ts).store.contains name =
            c.vars.contains name := by
        refine Config.assign_preserves
          (P := fun s => s.Sound ∧ ∀ name, s.contains name = c.vars.contains name)
          (fun s s' value t _ hs hset => ⟨?_, fun name => ?_⟩) ⟨h.vars, fun _ => rfl⟩
        · rw [Variables.set?_eq_some hset]
          exact hs.1.modify fun _ => rfl
        · rw [Variables.contains_set? hset, hs.2]
      exact (h.withValues hassigned.1 hassigned.2).of_sameTables hsame

theorem Sound.loadText (h : c.Sound) (text path : String) : (c.loadText text path).2.Sound :=
  h.takeLoaded fun _ hl => hl

theorem Sound.loadConfig (h : c.Sound) (path : String) : (c.loadConfig path).2.Sound := by
  unfold Console.loadConfig Config.loadFile
  cases c.disk.readText path with
  | error fault => exact h
  | ok text => exact h.takeLoaded fun _ hl => hl

/-- **Every operation keeps a console sound.** -/
theorem Sound.perform (h : c.Sound) (o : Operation) : (c.perform o).2.Sound := by
  cases hwrite : o.isWrite with
  | false => exact h.of_sameTables (sameTables_perform hwrite c)
  | true =>
    cases o with
    | registerVariable v => exact h.registerVariable v
    | unregisterVariable handle => exact h.unregisterVariable handle
    | createVariable name value flags => exact h.createVariable name value flags
    | setVariable name value => exact h.setVariable name value
    | resetVariable name => exact h.resetVariable name
    | assign name value => exact h.assign name value
    | setAlias name value => exact h.setAlias name value
    | removeAlias name => exact h.removeAlias name
    | removeCommand name => exact h.removeCommand name
    | takeChanges => exact h.congr rfl rfl rfl
    | loadConfig path => exact h.loadConfig path
    | loadText text path => exact h.loadText text path
    | _ => cases hwrite

/-! ### Runs and calls of the host -/

/-- **Every step of a run keeps a console sound.** -/
theorem kept_sound : Kept Sound where
  operation o h := h.perform o
  addCommand k h := h.addCommand k
  takeLine h := h.congr rfl rfl rfl
  record _ h := h.congr rfl rfl rfl
  piped _ h := h.congr rfl rfl rfl
  capture _ h := h.congr rfl rfl rfl
  submitting _ h := h.congr rfl rfl rfl
  settled h := h.congr rfl rfl rfl
  expanding _ h := h.congr rfl rfl rfl
  expanded h := h.congr rfl rfl rfl
  entering _ h := h.congr rfl rfl rfl
  leaving h := h.congr rfl rfl rfl

theorem sound_bare (settings : Settings) : (bare settings).Sound where
  commands := Commands.sound_empty
  vars := Variables.sound_empty
  aliases := Aliases.sound_empty
  apart kind kind' name hkind _ := by
    have hnone : ∀ {α : Type} [Named α], (Registry.empty : Registry α).contains name ≠ true := by
      intro α _ hcontains
      obtain ⟨e, he, -⟩ := Registry.sound_empty.contains_iff.mp hcontains
      cases he
    cases kind with
    | command => exact absurd hkind (hnone (α := Command Handler))
    | «variable» => exact absurd hkind (hnone (α := Variable))
    | «alias» => exact absurd hkind (hnone (α := Alias))

theorem HostCall.sound_run {limit : Nat} {k : HostCall} (hc : c.Sound)
    (hd : k.run limit c = some d) : d.Sound := by
  cases k with
  | enter e =>
    exact (kept_sound.law.entrance limit c e hc).2 d ((e.watched_result limit c).trans hd)
  | operation o => exact Option.some.inj hd ▸ hc.perform o
  | addCommand k => exact Option.some.inj hd ▸ hc.addCommand k
  | files disk => exact Option.some.inj hd ▸ hc.congr rfl rfl rfl

theorem Reachable.sound (h : c.Reachable) : c.Sound := by
  induction h with
  | new settings =>
    exact new_induction settings (sound_bare settings) (fun _ v hc => hc.registerVariable v)
      fun _ k _ hc => hc.addCommand k
  | call k _ hk ih => exact HostCall.sound_run ih hk

/-! ### The names of a console -/

/-- The names of all entries: commands, variables and aliases. -/
def names (c : Console) : List String :=
  c.commands.toList.map (·.name) ++ c.vars.toList.map (·.name) ++ c.aliases.toList.map (·.name)

/-- No two entries have the same name, whatever their kinds; all names are valid, and those of
aliases are not too long; no alias stands for itself. -/
structure Unambiguous (c : Console) : Prop where
  distinct : c.names.Pairwise fun a b => Text.sameName a b = false
  valid : ∀ name ∈ c.names, checkName name = .ok ()
  short : ∀ a ∈ c.aliases.toList, Text.byteLength a.name.toList ≤ Alias.maxNameLength
  notItself : ∀ a ∈ c.aliases.toList, Text.sameName (Text.trim a.value) a.name = false

/-- Entries of different kinds have different names. -/
theorem Apart.sameName_eq_false (h : c.Apart) {kind kind' : EntryKind} (hne : kind ≠ kind')
    {a b : String} (ha : c.has kind a = true) (hb : c.has kind' b = true) :
    Text.sameName a b = false :=
  Bool.eq_false_iff.mpr fun hsame => hne (h kind kind' b (c.has_congr kind hsame ▸ ha) hb)

theorem has_of_mem {α : Type} [Named α] {r : Registry α} (h : r.Sound) {name : String}
    (hname : name ∈ r.entries.map Named.name) : r.contains name = true := by
  obtain ⟨e, he, rfl⟩ := List.mem_map.mp hname
  exact h.contains_iff.mpr ⟨e, he, Text.sameName_self _⟩

theorem Sound.unambiguous (h : c.Sound) : c.Unambiguous where
  distinct := by
    have hcommands : ∀ a ∈ c.commands.toList.map (·.name), c.has .command a = true :=
      fun _ => has_of_mem h.commands.registry
    have hvars : ∀ a ∈ c.vars.toList.map (·.name), c.has .variable a = true :=
      fun _ => has_of_mem h.vars.registry
    have haliases : ∀ a ∈ c.aliases.toList.map (·.name), c.has .alias a = true :=
      fun _ => has_of_mem h.aliases.registry
    refine List.pairwise_append.mpr ⟨List.pairwise_append.mpr ⟨?_, ?_, ?_⟩, ?_, ?_⟩
    · exact List.pairwise_map.mpr h.commands.registry.distinct
    · exact List.pairwise_map.mpr h.vars.registry.distinct
    · exact fun a ha b hb => h.apart.sameName_eq_false (by decide) (hcommands a ha) (hvars b hb)
    · exact List.pairwise_map.mpr h.aliases.registry.distinct
    · intro a ha b hb
      rcases List.mem_append.mp ha with ha | ha
      · exact h.apart.sameName_eq_false (by decide) (hcommands a ha) (haliases b hb)
      · exact h.apart.sameName_eq_false (by decide) (hvars a ha) (haliases b hb)
  valid name hname := by
    have hisName : isName name = true := by
      rcases List.mem_append.mp hname with hname | hname
      · rcases List.mem_append.mp hname with hname | hname
        · obtain ⟨k, hk, rfl⟩ := List.mem_map.mp hname
          exact h.commands.isName k hk
        · obtain ⟨v, hv, rfl⟩ := List.mem_map.mp hname
          exact h.vars.isName v hv
      · obtain ⟨a, ha, rfl⟩ := List.mem_map.mp hname
        exact (h.aliases.proper a ha).isName
    exact if_pos hisName
  short a ha := (h.aliases.proper a ha).short
  notItself a ha := (h.aliases.proper a ha).notItself

/-- **On every console that calls of the host lead to a name means one thing**, and so it does at
every moment of a run. -/
theorem reachable_unambiguous (c : Console) (h : c.Reachable) :
    c.Unambiguous ∧
      ∀ (limit : Nat) (e : Entrance), ∀ m ∈ (e.watched limit c).moments, m.console.Unambiguous :=
  ⟨h.sound.unambiguous, fun limit e m hm =>
    ((kept_sound.law.entrance limit c e h.sound).1 m hm).unambiguous⟩

/-- A line that tries to use names of commands, variables and aliases for other kinds. -/
theorem reachable_unambiguous_telling : ∃ d,
    (Entrance.execute "alias hop jump; alias TELL x; alias SV_Cheats x; set HOP 1").run 5 telling =
      some d ∧
    d.aliases.toList.map (·.name) = ["hop"] ∧ d.vars.toList.map (·.name) = ["sv_cheats"] ∧
      d.Unambiguous := by
  have hsome : ((Entrance.execute
      "alias hop jump; alias TELL x; alias SV_Cheats x; set HOP 1").run 5 telling).map
        (fun d => (d.aliases.toList.map (·.name), d.vars.toList.map (·.name))) =
          some (["hop"], ["sv_cheats"]) := by
    decide +kernel
  obtain ⟨d, hd, hnames⟩ := Option.map_eq_some_iff.mp hsome
  obtain ⟨haliases, hvars⟩ := Prod.mk.inj hnames
  have hreach : d.Reachable := .call (.enter (.execute _)) reachable_telling hd
  exact ⟨d, hd, haliases, hvars, (reachable_unambiguous d hreach).1⟩

end Console

end DevConsole
