import DevConsole.Proofs.Run.Names
import DevConsole.Proofs.Table.Handles
import Mathlib.Data.String.Basic

/-!
# When a registration fails

Adding a command, registering a variable, creating one on the spot and setting an alias each look
into all three tables before they bring in a name. On a sound console each of them fails exactly
under its own conditions (`RefusesExactly`), read off the entries that are there and the arguments,
and one that fails leaves the console as it is; only the log tells of it. So it is on every reachable
console and at every moment of a run (`reachable_refusesExactly`).
-/

namespace DevConsole

theorem Text.byteLength_toList (s : String) : Text.byteLength s.toList = s.utf8ByteSize := by
  have hall : ∀ cs : List Char, Text.byteLength cs = String.utf8Len cs := by
    intro cs
    induction cs with
    | nil => rfl
    | cons c cs ih => rw [Text.byteLength, ih, String.utf8Len_cons, Nat.add_comm]
  rw [hall, ← String.utf8ByteSize_ofList, String.ofList_toList]

/-- A result that tells on failure that a condition holds, and on success that it does not. -/
theorem fails_iff {ε α : Type} {r : Except ε α} {p : Prop} (herror : ∀ e, r = .error e → p)
    (hok : ∀ a, r = .ok a → ¬ p) : (∃ e, r = .error e) ↔ p := by
  cases r with
  | error e => exact iff_of_true ⟨e, rfl⟩ (herror e rfl)
  | ok a => exact iff_of_false (fun ⟨_, he⟩ => nomatch he) (hok a rfl)

/-! ### The tables -/

theorem Commands.add_eq_error_iff {H : Type} {t : Commands H} {k : Command H} :
    (∃ e, t.add k = .error e) ↔ isName k.name = false ∨ t.contains k.name = true := by
  refine fails_iff (fun e he => ?_) fun t' ht' => ?_
  · by_contra hno
    obtain ⟨hname, hfree⟩ := not_or.mp hno
    rw [add, checkName, if_pos (eq_true_of_ne_false hname), eq_false_of_ne_true hfree] at he
    cases he
  · obtain ⟨hname, hfree, -⟩ := add_eq_ok ht'
    rw [hname, hfree]
    decide

theorem Aliases.set_eq_error_iff {t : Aliases} {name value : String} :
    (∃ e, t.set name value = .error e) ↔ isName name = false ∨ 32 < name.utf8ByteSize ∨
      Text.sameName (Text.trim value) name = true := by
  rw [← Text.byteLength_toList]
  refine fails_iff (fun e he => ?_) fun t' ht' => ?_
  · by_contra hno
    obtain ⟨hname, hno⟩ := not_or.mp hno
    obtain ⟨hshort, hother⟩ := not_or.mp hno
    have hshort' : ¬ Alias.maxNameLength < Text.byteLength name.toList := hshort
    unfold set at he
    rw [checkName, if_pos (eq_true_of_ne_false hname)] at he
    simp only [if_neg hshort', if_neg hother] at he
    cases hcontains : t.contains name <;> rw [hcontains] at he <;> cases he
  · obtain ⟨hproper, -⟩ := set_eq_ok ht'
    rintro (hname | hlong | hself)
    · cases hname.symm.trans hproper.isName
    · exact absurd hproper.short (Nat.not_le_of_lt hlong)
    · cases hself.symm.trans hproper.notItself

namespace Variables

variable {s : Variables}

theorem create_eq_error_iff {name : String} {value : Value} {flags : Flags} :
    (∃ e, s.create name value flags = .error e) ↔ s.contains name = false ∧ isName name = false := by
  refine fails_iff (fun e he => ?_) fun s' hs' => ?_
  · unfold create set? checkName at he
    cases hcontains : s.contains name with
    | true => rw [hcontains] at he; cases he
    | false =>
      cases hname : isName name with
      | true => rw [hcontains, hname] at he; cases he
      | false => exact ⟨rfl, rfl⟩
  · rintro ⟨hfree, hname⟩
    rcases create_eq_ok hs' with hset | ⟨hisName, -, -⟩
    · cases hfree.symm.trans (contains_of_set? hset)
    · cases hname.symm.trans hisName

/-- A registration fails on a name that is no name, or that of a variable that is not temporary. -/
theorem Sound.register_eq_error_iff (hs : s.Sound) {v : Variable} :
    (∃ e, s.register v = .error e) ↔ DevConsole.isName v.name = false ∨
      ∃ old ∈ s.toList, Text.sameName old.name v.name = true ∧ old.flags.has .temp = false := by
  have haccepts : (∃ e, s.register v = .error e) ↔ ¬ s.Accepts v := by
    rcases hs.register_cases v with ⟨haccepts, r, hr, -⟩ | ⟨hrefuses, e, he⟩
    · exact iff_of_false (fun ⟨_, he⟩ => nomatch hr.symm.trans he) (not_not_intro haccepts)
    · exact iff_of_true ⟨e, he⟩ hrefuses
  rw [haccepts]
  constructor
  · intro hrefuses
    by_contra hno
    obtain ⟨hname, htemp⟩ := not_or.mp hno
    refine hrefuses ⟨eq_true_of_ne_false hname, fun old hold => ?_⟩
    obtain ⟨hmem, hsame⟩ := hs.registry.get?_eq_some_iff.mp hold
    exact eq_true_of_ne_false fun hflag => htemp ⟨old, hmem, hsame, hflag⟩
  · rintro (hname | ⟨old, hmem, hsame, hflag⟩) haccepts
    · cases hname.symm.trans haccepts.isName
    · have hget : s.get? v.name = some old := hs.registry.get?_eq_some_iff.mpr ⟨hmem, hsame⟩
      cases hflag.symm.trans (haccepts.temp old hget)

end Variables

/-! ### The console -/

namespace Console

/-- The names of the entries of a kind. -/
def namesOf (c : Console) : EntryKind → List String
  | .command => c.commands.toList.map (·.name)
  | .variable => c.vars.toList.map (·.name)
  | .alias => c.aliases.toList.map (·.name)

/-- The name is that of an entry of the kind, but for the case of letters. -/
def Owns (c : Console) (kind : EntryKind) (name : String) : Prop :=
  ∃ own ∈ c.namesOf kind, Text.sameName own name = true

/-- What is done to the console, with result `r`, fails exactly if `p` holds, and a failure leaves the
console as it is, but for what the log tells of it. -/
structure Refuses {α : Type} (c : Console) (r : Except ConsoleError α × Console) (p : Prop) :
    Prop where
  fails : (∃ e, r.1 = .error e) ↔ p
  unchanged : (∃ e, r.1 = .error e) → ∃ records, r.2 = { c with log := c.log ++ records }

/-- When the operations that bring in names fail. -/
structure RefusesExactly (c : Console) : Prop where
  /-- A command is not added under an invalid name or one that any entry has. -/
  addCommand : ∀ k : Command Handler, c.Refuses (c.addCommand k)
    (isName k.name = false ∨ ∃ kind, c.Owns kind k.name)
  /-- A variable is not registered under an invalid name or one that a command, an alias or a variable
  that is not temporary has. -/
  registerVariable : ∀ v : Variable, c.Refuses (c.registerVariable v)
    (isName v.name = false ∨ c.Owns .command v.name ∨ c.Owns .alias v.name ∨
      ∃ old ∈ c.vars.toList, Text.sameName old.name v.name = true ∧ old.flags.has .temp = false)
  /-- A variable is not created under a name that a command or an alias has, nor anew under an invalid
  name. -/
  createVariable : ∀ name value flags, c.Refuses (c.createVariable name value flags)
    (c.Owns .command name ∨ c.Owns .alias name ∨ ¬ c.Owns .variable name ∧ isName name = false)
  /-- An alias is not set under a name that a command or a variable has, nor under an invalid name or
  one of more than 32 bytes, nor to its own name. -/
  setAlias : ∀ name value, c.Refuses (c.setAlias name value)
    (c.Owns .command name ∨ c.Owns .variable name ∨ isName name = false ∨ 32 < name.utf8ByteSize ∨
      Text.sameName (Text.trim value) name = true)

variable {c : Console}

theorem Sound.has_iff (h : c.Sound) (kind : EntryKind) (name : String) :
    c.has kind name = true ↔ c.Owns kind name := by
  have hlist : ∀ {α : Type} [Named α] (es : List α),
      (∃ e ∈ es, Text.sameName (Named.name e) name = true) ↔
        ∃ own ∈ es.map Named.name, Text.sameName own name = true :=
    fun es => by simp only [List.mem_map, exists_exists_and_eq_and]
  cases kind with
  | command => exact h.commands.registry.contains_iff.trans (hlist _)
  | «variable» => exact h.vars.registry.contains_iff.trans (hlist _)
  | «alias» => exact h.aliases.registry.contains_iff.trans (hlist _)

/-- What is done with a name fails also if another kind of entry has it. -/
theorem Refuses.withName {α : Type} {act : Except ConsoleError α × Console} {p : Prop}
    (h : c.Refuses act p) (name : String) (kind : EntryKind) :
    c.Refuses (c.withName name kind act) ((∃ kind' ≠ kind, c.has kind' name = true) ∨ p) := by
  unfold Console.withName
  cases htaken : c.takenBy name kind with
  | some owner =>
    have hother : ∃ kind' ≠ kind, c.has kind' name = true := by
      by_contra hno
      have hnone : c.takenBy name kind = none := takenBy_eq_none.mpr fun kind' hkind' => by
        by_contra hne
        exact hno ⟨kind', hne, hkind'⟩
      cases htaken.symm.trans hnone
    exact ⟨iff_of_true ⟨_, rfl⟩ (.inl hother), fun _ => ⟨[_], rfl⟩⟩
  | none =>
    have hno : ¬ ∃ kind' ≠ kind, c.has kind' name = true := fun ⟨kind', hne, hkind'⟩ =>
      hne (takenBy_eq_none.mp htaken kind' hkind')
    exact ⟨h.fails.trans (or_iff_right hno).symm, h.unchanged⟩

/-- What is done by changing a table fails exactly if the table refuses, and then leaves everything. -/
theorem refuses_of_table {α β : Type} {r : Except ConsoleError α} {p : Prop}
    {act : Except ConsoleError β × Console} (h : (∃ e, r = .error e) ↔ p)
    (herror : ∀ e, r = .error e → act = (.error e, c)) (hok : ∀ a, r = .ok a → ∃ b, act.1 = .ok b) :
    c.Refuses act p := by
  cases hr : r with
  | error e =>
    obtain rfl := herror e hr
    exact ⟨iff_of_true ⟨e, rfl⟩ (h.mp ⟨e, hr⟩), fun _ => ⟨[], by simp⟩⟩
  | ok a =>
    obtain ⟨b, hb⟩ := hok a hr
    have hno : ¬ ∃ e, act.1 = .error e := fun ⟨e, he⟩ => nomatch hb.symm.trans he
    have hp : ¬ p := fun hp => nomatch hr.symm.trans (h.mpr hp).choose_spec
    exact ⟨iff_of_false hno hp, fun he => absurd he hno⟩

theorem Refuses.congr {α : Type} {r : Except ConsoleError α × Console} {p q : Prop}
    (h : c.Refuses r p) (hpq : p ↔ q) : c.Refuses r q :=
  ⟨h.fails.trans hpq, h.unchanged⟩

/-- Another kind of entry has the name. -/
theorem Sound.others_iff (h : c.Sound) (kind : EntryKind) (name : String) :
    (∃ kind' ≠ kind, c.has kind' name = true) ↔
      .command ≠ kind ∧ c.Owns .command name ∨ .variable ≠ kind ∧ c.Owns .variable name ∨
        .alias ≠ kind ∧ c.Owns .alias name := by
  simp only [h.has_iff]
  constructor
  · rintro ⟨kind', hkind'⟩
    cases kind' with
    | command => exact .inl hkind'
    | «variable» => exact .inr (.inl hkind')
    | «alias» => exact .inr (.inr hkind')
  · rintro (hkind | hkind | hkind) <;> exact ⟨_, hkind⟩

/-- **On a sound console the operations that bring in names fail exactly under their conditions**,
and leave everything when they fail. -/
theorem Sound.refusesExactly (h : c.Sound) : c.RefusesExactly where
  addCommand k := by
    have hown : c.commands.contains k.name = true ↔ c.Owns .command k.name := h.has_iff .command k.name
    unfold Console.addCommand
    refine ((refuses_of_table Commands.add_eq_error_iff (fun e he => by rw [he])
      fun t ht => by rw [ht]; exact ⟨(), rfl⟩).withName k.name .command).congr ?_
    rw [hown]
    simp only [h.has_iff]
    constructor
    · rintro (⟨kind, -, hkind⟩ | hname | hkind)
      · exact .inr ⟨kind, hkind⟩
      · exact .inl hname
      · exact .inr ⟨.command, hkind⟩
    · rintro (hname | ⟨kind, hkind⟩)
      · exact .inr (.inl hname)
      · by_cases hcommand : kind = .command
        · exact .inr (.inr (hcommand ▸ hkind))
        · exact .inl ⟨kind, hcommand, hkind⟩
  registerVariable v := by
    unfold Console.registerVariable
    refine ((refuses_of_table h.vars.register_eq_error_iff (fun e he => by rw [he])
      fun r hr => ?_).withName v.name .variable).congr ?_
    · rw [hr]
      dsimp only
      split <;> exact ⟨_, rfl⟩
    · rw [h.others_iff]
      grind
  createVariable name value flags := by
    have hown : c.vars.contains name = false ↔ ¬ c.Owns .variable name := by
      rw [← h.has_iff, Bool.not_eq_true]
      rfl
    unfold Console.createVariable
    refine ((refuses_of_table Variables.create_eq_error_iff (fun e he => by rw [he])
      fun s hs => by rw [hs]; exact ⟨(), rfl⟩).withName name .variable).congr ?_
    rw [hown, h.others_iff]
    grind
  setAlias name value := by
    unfold Console.setAlias
    refine ((refuses_of_table Aliases.set_eq_error_iff (fun e he => by rw [he])
      fun t ht => by rw [ht]; exact ⟨(), rfl⟩).withName name .alias).congr ?_
    rw [h.others_iff]
    grind

/-- **On every console that calls of the host lead to, an operation that brings in a name fails
exactly under its conditions and then changes nothing**, and so it does at every moment of a run. -/
theorem reachable_refusesExactly (c : Console) (h : c.Reachable) :
    c.RefusesExactly ∧
      ∀ (limit : Nat) (e : Entrance), ∀ m ∈ (e.watched limit c).moments, m.console.RefusesExactly :=
  ⟨h.sound.refusesExactly, fun limit e m hm =>
    ((kept_sound.law.entrance limit c e h.sound).1 m hm).refusesExactly⟩

/-- A command's name in other letters is refused for an alias, and a new name is not. -/
theorem reachable_refusesExactly_telling : telling.Reachable ∧
    (∃ e, (telling.setAlias "TELL" "x").1 = .error e) ∧
      (∃ records, (telling.setAlias "TELL" "x").2 = { telling with log := telling.log ++ records }) ∧
        ¬ ∃ e, (telling.setAlias "hop" "jump").1 = .error e := by
  have hexact := (reachable_refusesExactly telling reachable_telling).1
  have htaken : telling.Owns .command "TELL" := by
    unfold Owns
    decide +kernel
  have hfree : ¬ (telling.Owns .command "hop" ∨ telling.Owns .variable "hop" ∨
      isName "hop" = false ∨ 32 < "hop".utf8ByteSize ∨
        Text.sameName (Text.trim "jump") "hop" = true) := by
    unfold Owns
    decide +kernel
  have hrefused := (hexact.setAlias "TELL" "x").fails.mpr (.inl htaken)
  exact ⟨reachable_telling, hrefused, (hexact.setAlias "TELL" "x").unchanged hrefused,
    fun he => hfree ((hexact.setAlias "hop" "jump").fails.mp he)⟩

end Console

end DevConsole
