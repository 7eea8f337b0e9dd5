import DevConsole.Aliases
import DevConsole.Commands
import DevConsole.Proofs.Table.Variables

/-!
# Names in the tables

What the operations on the three tables do to their names. In a sound table of commands or aliases no
two entries have the same name, and each entry is one that its table accepts; adding, changing and
taking out entries keeps tables sound. A name that a table has after an operation is one that it had,
or that of the new entry.
-/

namespace DevConsole

namespace Registry

variable {α : Type} [Named α] {r : Registry α}

omit [Named α] in
/-- The spelling of a name does not matter. -/
theorem contains_congr (r : Registry α) {a b : String} (h : Text.sameName a b = true) :
    r.contains a = r.contains b := by
  unfold contains Trie.contains Trie.get? Trie.node?
  rw [Text.foldBytes_eq_iff.mpr h]

theorem Sound.contains_insert (h : r.Sound) (e : α) (hfree : r.contains (Named.name e) = false)
    {name : String} : (r.insert e).contains name = true ↔
      Text.sameName (Named.name e) name = true ∨ r.contains name = true := by
  rw [(h.insert hfree).contains_iff, h.contains_iff]
  exact List.exists_mem_cons_iff ..

theorem Sound.contains_removeAt? (h : r.Sound) {i : Nat} {e : α} {r' : Registry α}
    (hr : r.removeAt? i = some (e, r')) {name : String} (hname : r'.contains name = true) :
    r.contains name = true := by
  obtain ⟨hsound, hperm⟩ := h.removeAt? hr
  obtain ⟨x, hx, hsame⟩ := hsound.contains_iff.mp hname
  exact h.contains_iff.mpr ⟨x, hperm.mem_iff.mpr (List.mem_cons_of_mem e hx), hsame⟩

@[simp] theorem contains_modify (r : Registry α) (name : String) (f : α → α) (n : String) :
    (r.modify name f).contains n = r.contains n := by
  unfold modify
  split <;> rfl

@[simp] theorem names_modify (r : Registry α) (name : String) (f : α → α) :
    (r.modify name f).names = r.names := by
  unfold modify
  split <;> rfl

/-- The entry at the place of a name has the name. -/
theorem sameName_of_position? {name : String} {i : Nat} {e : α} (hi : r.position? name = some i)
    (he : r.entries[i]? = some e) : Text.sameName (Named.name e) name = true := by
  unfold position? at hi
  split at hi
  · obtain ⟨hlt, hsame, -⟩ := List.findIdx?_eq_some_iff_getElem.mp hi
    obtain rfl := Option.some.inj ((List.getElem?_eq_getElem hlt).symm.trans he)
    exact hsame
  · cases hi

/-- Taking an entry out by its name takes out an entry at a place. -/
theorem removeAt?_of_remove? {name : String} {e : α} {r' : Registry α}
    (h : r.remove? name = some (e, r')) : ∃ i, r.removeAt? i = some (e, r') := by
  obtain ⟨i, -, hi⟩ := Option.bind_eq_some_iff.mp h
  exact ⟨i, hi⟩

theorem removeAt?_of_removeWhere? {p : α → Bool} {e : α} {r' : Registry α}
    (h : r.removeWhere? p = some (e, r')) : ∃ i, r.removeAt? i = some (e, r') := by
  obtain ⟨i, -, hi⟩ := Option.bind_eq_some_iff.mp h
  exact ⟨i, hi⟩

end Registry

/-! ### Commands -/

namespace Commands

variable {H : Type} {t : Commands H}

/-- No two commands have the same name, and their names are valid. -/
structure Sound (t : Commands H) : Prop where
  registry : t.registry.Sound
  isName : ∀ k ∈ t.toList, isName k.name = true

theorem sound_empty : (empty : Commands H).Sound where
  registry := Registry.sound_empty
  isName k hk := by cases hk

theorem add_eq_ok {t' : Commands H} {k : Command H} (h : t.add k = .ok t') :
    DevConsole.isName k.name = true ∧ t.contains k.name = false ∧ t' = ⟨t.registry.insert k⟩ := by
  unfold add at h
  cases hname : checkName k.name with
  | error e => rw [hname] at h; cases h
  | ok u =>
    rw [hname] at h
    cases hcontains : t.contains k.name with
    | true => rw [hcontains] at h; cases h
    | false =>
      rw [hcontains] at h
      cases h
      exact ⟨Variables.isName_of_checkName hname, rfl, rfl⟩

theorem Sound.add (h : t.Sound) {t' : Commands H} {k : Command H} (hk : t.add k = .ok t') :
    t'.Sound := by
  obtain ⟨hname, hfree, rfl⟩ := add_eq_ok hk
  refine ⟨h.registry.insert hfree, fun l hl => ?_⟩
  rcases List.mem_cons.mp hl with rfl | hl
  · exact hname
  · exact h.isName l hl

theorem remove?_eq_some {t' : Commands H} {name : String} {k : Command H}
    (h : t.remove? name = some (k, t')) : ∃ i, t.registry.removeAt? i = some (k, t'.registry) := by
  obtain ⟨⟨l, r⟩, hr, hpair⟩ := Option.map_eq_some_iff.mp h
  obtain ⟨rfl, rfl⟩ := Prod.mk.inj hpair
  exact Registry.removeAt?_of_remove? hr

theorem Sound.remove (h : t.Sound) {t' : Commands H} {name : String} {k : Command H}
    (hk : t.remove? name = some (k, t')) : t'.Sound := by
  obtain ⟨i, hi⟩ := remove?_eq_some hk
  obtain ⟨hsound, hperm⟩ := h.registry.removeAt? hi
  exact ⟨hsound, fun l hl => h.isName l (hperm.mem_iff.mpr (List.mem_cons_of_mem k hl))⟩

end Commands

/-! ### Aliases -/

/-- The alias has a valid name, not too long, and does not stand for itself. -/
structure Alias.Proper (a : Alias) : Prop where
  isName : isName a.name = true
  short : Text.byteLength a.name.toList ≤ maxNameLength
  notItself : Text.sameName (Text.trim a.value) a.name = false

namespace Aliases

variable {t : Aliases}

/-- No two aliases have the same name, and each is proper. -/
structure Sound (t : Aliases) : Prop where
  registry : t.registry.Sound
  proper : ∀ a ∈ t.toList, a.Proper

theorem sound_empty : empty.Sound where
  registry := Registry.sound_empty
  proper a ha := by cases ha

theorem set_eq_ok {t' : Aliases} {name value : String} (h : t.set name value = .ok t') :
    Alias.Proper ⟨name, value⟩ ∧
      (t.contains name = true ∧ t' = ⟨t.registry.modify name ({ · with value })⟩ ∨
        t.contains name = false ∧ t' = ⟨t.registry.insert { name, value }⟩) := by
  unfold set at h
  cases hname : checkName name with
  | error e => rw [hname] at h; cases h
  | ok u =>
    rw [hname] at h
    by_cases hlong : Alias.maxNameLength < Text.byteLength name.toList
    · simp only [if_pos hlong] at h
      cases h
    · simp only [if_neg hlong] at h
      by_cases hself : Text.sameName (Text.trim value) name = true
      · simp only [if_pos hself] at h
        cases h
      · simp only [if_neg hself] at h
        refine ⟨⟨Variables.isName_of_checkName hname, Nat.le_of_not_lt hlong, by simpa using hself⟩,
          ?_⟩
        cases hcontains : t.contains name with
        | true =>
          rw [hcontains] at h
          cases h
          exact .inl ⟨rfl, rfl⟩
        | false =>
          rw [hcontains] at h
          cases h
          exact .inr ⟨rfl, rfl⟩

/-- A new text for an alias of the same name. -/
theorem proper_withValue {a : Alias} (ha : a.Proper) {name value : String}
    (hname : Text.sameName a.name name = true) (h : Alias.Proper ⟨name, value⟩) :
    Alias.Proper { a with value } where
  isName := ha.isName
  short := ha.short
  notItself := by
    refine Bool.eq_false_iff.mpr fun hself => ?_
    have hother := h.notItself
    rw [Text.sameName_trans hself hname] at hother
    cases hother

theorem Sound.set (h : t.Sound) {t' : Aliases} {name value : String}
    (hset : t.set name value = .ok t') : t'.Sound := by
  obtain ⟨hproper, ⟨-, rfl⟩ | ⟨hfree, rfl⟩⟩ := set_eq_ok hset
  · refine ⟨h.registry.modify fun _ => rfl, fun b hb => ?_⟩
    have hb' : b ∈ t.registry.entries.map (Registry.onName name ({ · with value })) := by
      rw [toList, h.registry.modify_eq] at hb
      exact hb
    obtain ⟨a, ha, rfl⟩ := List.mem_map.mp hb'
    unfold Registry.onName
    split
    · next hname => exact proper_withValue (h.proper a ha) hname hproper
    · exact h.proper a ha
  · refine ⟨h.registry.insert hfree, fun b hb => ?_⟩
    rcases List.mem_cons.mp hb with rfl | hb
    · exact hproper
    · exact h.proper b hb

theorem remove?_eq_some {t' : Aliases} {name : String} {a : Alias}
    (h : t.remove? name = some (a, t')) : ∃ i, t.registry.removeAt? i = some (a, t'.registry) := by
  obtain ⟨⟨b, r⟩, hr, hpair⟩ := Option.map_eq_some_iff.mp h
  obtain ⟨rfl, rfl⟩ := Prod.mk.inj hpair
  exact Registry.removeAt?_of_remove? hr

theorem Sound.remove (h : t.Sound) {t' : Aliases} {name : String} {a : Alias}
    (ha : t.remove? name = some (a, t')) : t'.Sound := by
  obtain ⟨i, hi⟩ := remove?_eq_some ha
  obtain ⟨hsound, hperm⟩ := h.registry.removeAt? hi
  exact ⟨hsound, fun b hb => h.proper b (hperm.mem_iff.mpr (List.mem_cons_of_mem a hb))⟩

theorem Sound.contains_set (h : t.Sound) {t' : Aliases} {name value : String}
    (hset : t.set name value = .ok t') {n : String} (hn : t'.contains n = true) :
    Text.sameName name n = true ∨ t.contains n = true := by
  obtain ⟨-, ⟨-, rfl⟩ | ⟨hfree, rfl⟩⟩ := set_eq_ok hset
  · exact .inr ((Registry.contains_modify ..).symm.trans hn)
  · exact (h.registry.contains_insert ⟨name, value⟩ hfree).mp hn

end Aliases

/-! ### Variables -/

namespace Variables

variable {s s' : Variables}

theorem Sound.unregister (hs : s.Sound) {h : Handle} {v : Variable}
    (hv : s.unregister h = some (v, s')) : s'.Sound ∧
      ∀ n, s'.contains n = true → s.contains n = true := by
  obtain ⟨⟨w, r⟩, hr, hpair⟩ := Option.map_eq_some_iff.mp hv
  obtain ⟨rfl, rfl⟩ := Prod.mk.inj hpair
  obtain ⟨i, hi⟩ := Registry.removeAt?_of_removeWhere? hr
  obtain ⟨hsound, hperm⟩ := hs.registry.removeAt? hi
  exact ⟨hs.removed hsound hperm, fun n hn => hs.registry.contains_removeAt? hi hn⟩

theorem set?_eq_some {name : String} {value : Value} (h : s.set? name value = some s') :
    s' = { s with registry := s.registry.modify name (·.set value) } := by
  unfold set? at h
  split at h
  · exact (Option.some.inj h).symm
  · cases h

theorem reset?_eq_some {name : String} (h : s.reset? name = some s') :
    s' = { s with registry := s.registry.modify name (·.reset) } := by
  unfold reset? at h
  split at h
  · exact (Option.some.inj h).symm
  · cases h

theorem contains_set? {name : String} {value : Value} (h : s.set? name value = some s')
    (n : String) : s'.contains n = s.contains n := by
  rw [set?_eq_some h]
  exact Registry.contains_modify ..

theorem contains_reset? {name : String} (h : s.reset? name = some s') (n : String) :
    s'.contains n = s.contains n := by
  rw [reset?_eq_some h]
  exact Registry.contains_modify ..

/-- Setting a variable leaves those with other names. -/
theorem Sound.get?_set? (hs : s.Sound) {name : String} {value : Value}
    (h : s.set? name value = some s') {n : String} (hn : Text.sameName n name = false) :
    s'.get? n = s.get? n := by
  obtain ⟨t, ht, hs', -, -, hlist⟩ := hs.set?_eq (contains_of_set? h) value
  obtain rfl : s' = t := Option.some.inj (h.symm.trans ht)
  refine Option.ext fun v => ?_
  show s'.registry.get? n = some v ↔ s.registry.get? n = some v
  rw [hs'.registry.get?_eq_some_iff, hs.registry.get?_eq_some_iff]
  refine and_congr_left fun hv => ?_
  show v ∈ s'.toList ↔ v ∈ s.toList
  rw [hlist]
  have hother : ∀ u : Variable, Text.sameName u.name n = true →
      Registry.onName name (·.set value) u = u := by
    intro u hu
    refine if_neg fun hsame => Bool.eq_false_iff.mp hn ?_
    rw [Text.sameName_comm] at hu
    exact Text.sameName_trans hu hsame
  constructor
  · intro hmem
    obtain ⟨u, hu, rfl⟩ := List.mem_map.mp hmem
    have hname : Text.sameName u.name n = true := by
      unfold Registry.onName at hv
      split at hv <;> exact hv
    rwa [hother u hname]
  · exact fun hmem => List.mem_map.mpr ⟨v, hmem, hother v hv⟩

/-- A store that is registered in has the new name and those that it had. -/
theorem Sound.contains_register (hs : s.Sound) {v : Variable} {r : Registration}
    (h : s.register v = .ok r) {n : String} (hn : r.store.contains n = true) :
    Text.sameName v.name n = true ∨ s.contains n = true := by
  unfold Variables.register at h
  cases hname : checkName v.name with
  | error e => rw [hname] at h; cases h
  | ok u =>
    rw [hname] at h
    cases hr : s.registry.remove? v.name with
    | none =>
      rw [hr] at h
      cases h
      exact (hs.registry.contains_insert { v with handle := some ⟨s.nextHandle⟩ }
        (hs.registry.remove?_eq_none hr)).mp hn
    | some p =>
      obtain ⟨old, registry⟩ := p
      obtain ⟨hsound, -, -, hfree⟩ := hs.registry.remove?_eq_some hr
      obtain ⟨i, hi⟩ := Registry.removeAt?_of_remove? hr
      rw [hr] at h
      change (if old.flags.has .temp then _ else _) = _ at h
      split at h
      · cases h
        have hinsert : ∀ w : Variable, w.name = v.name →
            (({ s with registry } : Variables).add w).store.contains n = true →
              Text.sameName v.name n = true ∨ s.contains n = true := by
          intro w hw hn
          have hfree' : registry.contains w.name = false := by rw [hw]; exact hfree
          rcases (hsound.contains_insert { w with handle := some ⟨s.nextHandle⟩ } hfree').mp hn with hsame | hn
          · exact .inl (by rw [← hw]; exact hsame)
          · exact .inr (hs.registry.contains_removeAt? hi hn)
        split at hn
        · exact hinsert v rfl hn
        · exact hinsert (v.withValueOf old) rfl hn
      · cases h

/-- Creating sets the variable with the name, or adds one under a free name. -/
theorem create_eq_ok {name : String} {value : Value} {flags : Flags}
    (h : s.create name value flags = .ok s') :
    s.set? name value = some s' ∨
      DevConsole.isName name = true ∧ s.contains name = false ∧
        s' = (s.add (.ofValue name value (flags.union (.single .temp)))).store := by
  unfold Variables.create at h
  cases hset : s.set? name value with
  | some t =>
    rw [hset] at h
    cases h
    exact .inl rfl
  | none =>
    rw [hset] at h
    cases hname : checkName name with
    | error e => rw [hname] at h; cases h
    | ok u =>
      rw [hname] at h
      cases h
      refine .inr ⟨isName_of_checkName hname, Bool.eq_false_iff.mpr fun hc => ?_, rfl⟩
      rw [set?, if_pos hc] at hset
      cases hset

/-- A store in which a variable is set or created has its name and those that it had. -/
theorem Sound.contains_create (hs : s.Sound) {name : String} {value : Value} {flags : Flags}
    (h : s.create name value flags = .ok s') {n : String} (hn : s'.contains n = true) :
    Text.sameName name n = true ∨ s.contains n = true := by
  rcases create_eq_ok h with hset | ⟨-, hfree, rfl⟩
  · exact .inr ((contains_set? hset n).symm.trans hn)
  · exact (hs.registry.contains_insert
      { Variable.ofValue name value (flags.union (.single .temp)) with
        handle := some ⟨s.nextHandle⟩ } hfree).mp hn

end Variables

end DevConsole
