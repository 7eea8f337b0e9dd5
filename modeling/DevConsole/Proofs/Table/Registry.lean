import DevConsole.Proofs.Table.Trie
import DevConsole.Registry
import Mathlib.Data.List.Pairwise
import Mathlib.Data.List.Perm.Basic

/-!
# Sound registries

In a sound registry the trie holds exactly the names of the entries, as they are spelt, and no two
entries have the same name. Taking an entry out keeps a registry sound, inserting one exactly if its
name is free (`Sound.insert_iff`), and changing entries in place exactly if the names stay
(`Sound.mapEntries_iff`). In a sound registry a search finds the entry with the name
(`Sound.get?_eq_some_iff`), and the sorted entries are all entries (`Sound.sorted_perm`).
-/

namespace DevConsole

namespace Registry

variable {α : Type} [Named α] {r : Registry α}

/-- The trie holds exactly the names of the entries. -/
structure Sound (r : Registry α) : Prop where
  filed : r.names.Filed
  spelt : (r.names.toList.map Prod.fst).Perm (r.entries.map Named.name)

/-- No two entries have the same name. -/
def Distinct (es : List α) : Prop :=
  es.Pairwise fun x y => Text.sameName (Named.name x) (Named.name y) = false

theorem distinct_symm {a b : String} (h : Text.sameName a b = false) : Text.sameName b a = false := by
  rw [Text.sameName_comm]
  exact h

/-- Names that are the same as a third one are the same. -/
theorem sameName_of_both {a b name : String} (ha : Text.sameName a name = true)
    (hb : Text.sameName b name = true) : Text.sameName a b = true := by
  rw [Text.sameName_comm] at hb
  exact Text.sameName_trans ha hb

theorem Sound.distinct (h : r.Sound) : Distinct r.entries := by
  have hnames : (r.names.toList.map Prod.fst).Pairwise fun a b => Text.sameName a b = false :=
    List.pairwise_map.mpr h.filed.distinct
  exact List.pairwise_map.mp ((h.spelt.pairwise_iff distinct_symm).mp hnames)

theorem Distinct.eq_of_sameName {es : List α} (h : Distinct es) {x y : α} (hx : x ∈ es)
    (hy : y ∈ es) (hxy : Text.sameName (Named.name x) (Named.name y) = true) : x = y := by
  have hsymm : Std.Symm fun x y : α => Text.sameName (Named.name x) (Named.name y) = false :=
    ⟨fun _ _ => distinct_symm⟩
  refine Classical.byContradiction fun hne => ?_
  have hdiff : Text.sameName (Named.name x) (Named.name y) = false := h.forall hx hy hne
  rw [hxy] at hdiff
  cases hdiff

theorem nodup_of_distinct {names : List String}
    (h : names.Pairwise fun a b => Text.sameName a b = false) : names.Nodup := by
  refine h.imp fun {a b} hdiff hab => ?_
  rw [hab, Text.sameName_self] at hdiff
  cases hdiff

/-! ### Searching -/

theorem Sound.contains_iff (h : r.Sound) {name : String} :
    r.contains name = true ↔ ∃ e ∈ r.entries, Text.sameName (Named.name e) name = true := by
  rw [contains, h.filed.contains_iff]
  constructor
  · rintro ⟨k, hk, hsame⟩
    have hmem := h.spelt.mem_iff.mp (List.mem_map_of_mem hk)
    obtain ⟨e, he, hname⟩ := List.mem_map.mp hmem
    exact ⟨e, he, by rw [hname]; exact hsame⟩
  · rintro ⟨e, he, hsame⟩
    have hmem := h.spelt.mem_iff.mpr (List.mem_map_of_mem he)
    obtain ⟨k, hk, hname⟩ := List.mem_map.mp hmem
    exact ⟨k, hk, by rw [hname]; exact hsame⟩

theorem Sound.position?_eq (h : r.Sound) (name : String) :
    r.position? name = r.entries.findIdx? fun e => Text.sameName (Named.name e) name := by
  unfold position?
  split
  · rfl
  · next hno =>
    refine (List.findIdx?_eq_none_iff.mpr fun e he => ?_).symm
    exact Bool.eq_false_iff.mpr fun hsame => hno (h.contains_iff.mpr ⟨e, he, hsame⟩)

/-- **A search finds the entry with the name.** -/
theorem Sound.get?_eq_some_iff (h : r.Sound) {name : String} {e : α} :
    r.get? name = some e ↔ e ∈ r.entries ∧ Text.sameName (Named.name e) name = true := by
  have hfound : ∀ {e}, r.get? name = some e →
      e ∈ r.entries ∧ Text.sameName (Named.name e) name = true := by
    intro e he
    rw [get?, h.position?_eq] at he
    obtain ⟨i, hi, he⟩ := Option.bind_eq_some_iff.mp he
    obtain ⟨hlt, hsame, -⟩ := List.findIdx?_eq_some_iff_getElem.mp hi
    rw [List.getElem?_eq_getElem hlt] at he
    obtain rfl := Option.some.inj he
    exact ⟨List.getElem_mem hlt, hsame⟩
  refine ⟨hfound, fun ⟨hmem, hsame⟩ => ?_⟩
  cases hget : r.get? name with
  | some x =>
    obtain ⟨hx, hxname⟩ := hfound hget
    exact congrArg some (h.distinct.eq_of_sameName hx hmem (sameName_of_both hxname hsame))
  | none =>
    rw [get?, h.position?_eq] at hget
    obtain ⟨i, hi⟩ : ∃ i, r.entries.findIdx? (fun e => Text.sameName (Named.name e) name) = some i :=
      ⟨_, List.findIdx?_eq_some_of_exists ⟨e, hmem, hsame⟩⟩
    obtain ⟨hlt, -⟩ := List.findIdx?_eq_some_iff_getElem.mp hi
    rw [hi, Option.bind_some, List.getElem?_eq_getElem hlt] at hget
    cases hget

theorem Sound.position?_eq_some_iff (h : r.Sound) {name : String} {i : Nat} :
    r.position? name = some i ↔
      ∃ e, r.entries[i]? = some e ∧ Text.sameName (Named.name e) name = true := by
  rw [h.position?_eq, List.findIdx?_eq_some_iff_getElem]
  constructor
  · rintro ⟨hlt, hsame, -⟩
    exact ⟨_, List.getElem?_eq_getElem hlt, hsame⟩
  · rintro ⟨e, he, hsame⟩
    obtain ⟨hlt, rfl⟩ := List.getElem?_eq_some_iff.mp he
    refine ⟨hlt, hsame, fun j hj hjsame => ?_⟩
    have hdiff := List.pairwise_iff_getElem.mp h.distinct j i (Nat.lt_trans hj hlt) hlt hj
    rw [sameName_of_both hjsame hsame] at hdiff
    cases hdiff

/-- Only the first entry has its name. -/
theorem Distinct.sameName_eq_false {e : α} {es : List α} (h : Distinct (e :: es)) {name : String}
    (he : Text.sameName (Named.name e) name = true) :
    ∀ x ∈ es, Text.sameName (Named.name x) name = false := by
  intro x hx
  refine Bool.eq_false_iff.mpr fun hsame => ?_
  have hdiff := (List.pairwise_cons.mp h).1 x hx
  rw [sameName_of_both he hsame] at hdiff
  cases hdiff

omit [Named α] in
/-- At the place of the only entry that passes a test, all entries that pass it are taken out. -/
theorem eraseIdx_eq_filter {p : α → Bool} : ∀ {es : List α} {i : Nat},
    (es.Pairwise fun x y => p x = true → p y = false) → es.findIdx? p = some i →
      es.eraseIdx i = es.filter fun e => !p e
  | [], _, _, hi => by cases hi
  | e :: es, i, h, hi => by
    obtain ⟨hothers, hrest⟩ := List.pairwise_cons.mp h
    rw [List.findIdx?_cons] at hi
    split at hi
    · next he =>
      obtain rfl := Option.some.inj hi
      rw [List.filter_cons_of_neg (by simp [he]), List.eraseIdx_cons_zero]
      exact (List.filter_eq_self.mpr fun x hx => by simp [hothers x hx he]).symm
    · next he =>
      obtain ⟨j, hj, rfl⟩ := Option.map_eq_some_iff.mp hi
      rw [List.filter_cons_of_pos (by simp [he]), List.eraseIdx_cons_succ,
        eraseIdx_eq_filter hrest hj]

/-- At the place of an entry with a name, all entries of that name are taken out. -/
theorem Distinct.eraseIdx_eq_filter {name : String} {es : List α} {i : Nat} (h : Distinct es)
    (hi : es.findIdx? (fun e => Text.sameName (Named.name e) name) = some i) :
    es.eraseIdx i = es.filter fun e => !Text.sameName (Named.name e) name := by
  refine Registry.eraseIdx_eq_filter (List.Pairwise.imp (fun {x y} hdiff hx => ?_) h) hi
  refine Bool.eq_false_iff.mpr fun hy => ?_
  rw [sameName_of_both hx hy] at hdiff
  cases hdiff

/-- **A name that is there is that of one entry.** -/
theorem Sound.countP_sameName (h : r.Sound) (name : String) :
    r.entries.countP (fun e => Text.sameName (Named.name e) name) =
      if r.contains name then 1 else 0 := by
  have hone : ∀ {es : List α}, Distinct es → ∀ e ∈ es, Text.sameName (Named.name e) name = true →
      es.countP (fun e => Text.sameName (Named.name e) name) = 1 := by
    intro es
    induction es with
    | nil => exact fun _ e he => by cases he
    | cons x es ih =>
      intro hes e he hsame
      by_cases hx : Text.sameName (Named.name x) name = true
      · have hothers := List.countP_eq_zero.mpr fun y hy =>
          Bool.eq_false_iff.mp (hes.sameName_eq_false hx y hy)
        rw [List.countP_cons, if_pos hx, hothers]
      · have hne : e ≠ x := fun hex => hx (hex ▸ hsame)
        rw [List.countP_cons, if_neg hx]
        exact ih (List.pairwise_cons.mp hes).2 e ((List.mem_cons.mp he).resolve_left hne) hsame
  split
  · next hcontains =>
    obtain ⟨e, he, hsame⟩ := h.contains_iff.mp hcontains
    exact hone h.distinct e he hsame
  · next hno =>
    exact List.countP_eq_zero.mpr fun e he hsame => hno (h.contains_iff.mpr ⟨e, he, hsame⟩)

/-- The own name of an entry leads to it. -/
theorem Sound.get?_name (h : r.Sound) {e : α} (he : e ∈ r.entries) :
    r.get? (Named.name e) = some e :=
  h.get?_eq_some_iff.mpr ⟨he, Text.sameName_self _⟩

/-! ### Listing -/

/-- **The names that begin with a text are those of the entries.** -/
theorem Sound.mem_startingWith_iff (h : r.Sound) {lead name : String} :
    name ∈ r.startingWith lead ↔
      (∃ e ∈ r.entries, Named.name e = name) ∧ Text.startsName lead name = true := by
  have hspelt : (∃ v, (name, v) ∈ r.names.toList) ↔ ∃ e ∈ r.entries, Named.name e = name := by
    rw [← List.mem_map, ← h.spelt.mem_iff]
    simp
  rw [startingWith, ← hspelt]
  constructor
  · intro hname
    obtain ⟨⟨k, v⟩, hk, rfl⟩ := List.mem_map.mp hname
    obtain ⟨hmem, hlead⟩ := h.filed.mem_startingWith_iff.mp hk
    exact ⟨⟨v, hmem⟩, hlead⟩
  · rintro ⟨⟨v, hmem⟩, hlead⟩
    exact List.mem_map.mpr ⟨(name, v), h.filed.mem_startingWith_iff.mpr ⟨hmem, hlead⟩, rfl⟩

/-- **The names that begin with a text are listed in order.** -/
theorem Sound.startingWith_ascending (h : r.Sound) (lead : String) :
    (r.startingWith lead).Pairwise Text.Before :=
  List.pairwise_map.mpr (h.filed.ascending lead)

/-- The sorted entries have the sorted names. -/
theorem Sound.map_name_sorted (h : r.Sound) : r.sorted.map Named.name = r.sortedNames := by
  have hall : ∀ names : List String, (∀ name ∈ names, ∃ e ∈ r.entries, Named.name e = name) →
      (names.filterMap r.get?).map Named.name = names := by
    intro names hnames
    induction names with
    | nil => rfl
    | cons name names ih =>
      obtain ⟨e, he, rfl⟩ := hnames name List.mem_cons_self
      rw [List.filterMap_cons_some (h.get?_name he), List.map_cons,
        ih fun n hn => hnames n (List.mem_cons_of_mem _ hn)]
  exact hall r.sortedNames fun name hname => (h.mem_startingWith_iff.mp hname).1

/-- The own names of entries lead to them. -/
theorem Sound.filterMap_get? (h : r.Sound) {es : List α} (hes : ∀ e ∈ es, e ∈ r.entries) :
    (es.map Named.name).filterMap r.get? = es := by
  induction es with
  | nil => rfl
  | cons e es ih =>
    rw [List.map_cons, List.filterMap_cons_some (h.get?_name (hes e List.mem_cons_self)),
      ih fun x hx => hes x (List.mem_cons_of_mem e hx)]

/-- **The sorted entries are all entries.** -/
theorem Sound.sorted_perm (h : r.Sound) : r.sorted.Perm r.entries := by
  unfold sorted sortedNames startingWith
  rw [Trie.startingWith_empty]
  have hperm := h.spelt.filterMap r.get?
  rwa [h.filterMap_get? fun _ he => he] at hperm

/-! ### Changing -/

theorem sound_empty : (empty : Registry α).Sound where
  filed := Trie.filed_empty
  spelt := by
    show (Trie.empty.toList.map Prod.fst).Perm []
    rw [Trie.toList_empty]
    exact .nil

/-- Two lists of names, each without a name twice, that hold the same names. -/
theorem names_perm {xs ys : List String} (hxs : xs.Pairwise fun a b => Text.sameName a b = false)
    (hys : ys.Pairwise fun a b => Text.sameName a b = false) (h : ∀ name, name ∈ xs ↔ name ∈ ys) :
    xs.Perm ys :=
  (List.perm_ext_iff_of_nodup (nodup_of_distinct hxs) (nodup_of_distinct hys)).mpr h

/-- **Inserting under a free name keeps a registry sound.** -/
theorem Sound.insert (h : r.Sound) {e : α} (hfree : r.contains (Named.name e) = false) :
    (r.insert e).Sound where
  filed := h.filed.insert _ _
  spelt := by
    have hfree' : ∀ x ∈ r.entries, Text.sameName (Named.name x) (Named.name e) = false :=
      fun x hx => Bool.eq_false_iff.mpr fun hsame =>
        Bool.eq_false_iff.mp hfree (h.contains_iff.mpr ⟨x, hx, hsame⟩)
    have hdistinct : Distinct (e :: r.entries) :=
      List.pairwise_cons.mpr ⟨fun x hx => distinct_symm (hfree' x hx), h.distinct⟩
    refine names_perm (List.pairwise_map.mpr (h.filed.insert _ _).distinct)
      (List.pairwise_map.mpr hdistinct) fun name => ?_
    show name ∈ (r.names.insert (Named.name e) ()).toList.map Prod.fst ↔
      name ∈ Named.name e :: r.entries.map Named.name
    rw [List.mem_cons, ← h.spelt.mem_iff]
    constructor
    · intro hmem
      obtain ⟨k, hk, rfl⟩ := List.mem_map.mp hmem
      rcases h.filed.mem_toList_insert.mp hk with rfl | ⟨-, hk⟩
      · exact .inl rfl
      · exact .inr (List.mem_map_of_mem hk)
    · rintro (rfl | hmem)
      · exact List.mem_map.mpr ⟨_, h.filed.mem_toList_insert.mpr (.inl rfl), rfl⟩
      · obtain ⟨x, hx, rfl⟩ := List.mem_map.mp (h.spelt.mem_iff.mp hmem)
        obtain ⟨k, hk, hname⟩ := List.mem_map.mp hmem
        refine List.mem_map.mpr ⟨k, h.filed.mem_toList_insert.mpr (.inr ⟨?_, hk⟩), hname⟩
        rw [hname]
        exact hfree' x hx

/-- Only a free name keeps a registry sound. -/
theorem Sound.insert_iff (h : r.Sound) {e : α} :
    (r.insert e).Sound ↔ r.contains (Named.name e) = false := by
  refine ⟨fun hinsert => Bool.eq_false_iff.mpr fun hcontains => ?_, h.insert⟩
  obtain ⟨x, hx, hsame⟩ := h.contains_iff.mp hcontains
  have hdistinct : Distinct (e :: r.entries) := hinsert.distinct
  rw [hdistinct.sameName_eq_false (Text.sameName_self _) x hx] at hsame
  cases hsame

/-- **Taking an entry out keeps a registry sound.** -/
theorem Sound.removeAt? (h : r.Sound) {i : Nat} {e : α} {r' : Registry α}
    (hr : r.removeAt? i = some (e, r')) : r'.Sound ∧ r.entries.Perm (e :: r'.entries) := by
  obtain ⟨x, hx, hpair⟩ := Option.map_eq_some_iff.mp hr
  obtain ⟨rfl, rfl⟩ := Prod.mk.inj hpair
  obtain ⟨hlt, rfl⟩ := List.getElem?_eq_some_iff.mp hx
  have hperm : r.entries.Perm (r.entries[i] :: r.entries.eraseIdx i) :=
    (List.getElem_cons_eraseIdx_perm hlt).symm
  have hdistinct : Distinct (r.entries[i] :: r.entries.eraseIdx i) :=
    (hperm.pairwise_iff distinct_symm).mp h.distinct
  obtain ⟨hout, hrest⟩ := List.pairwise_cons.mp hdistinct
  refine ⟨⟨h.filed.erase _, ?_⟩, hperm⟩
  refine names_perm (List.pairwise_map.mpr (h.filed.erase _).distinct)
    (List.pairwise_map.mpr hrest) fun name => ?_
  constructor
  · intro hmem
    obtain ⟨k, hk, rfl⟩ := List.mem_map.mp hmem
    obtain ⟨hdiff, hk⟩ := h.filed.mem_toList_erase.mp hk
    obtain ⟨y, hy, hname⟩ := List.mem_map.mp (h.spelt.mem_iff.mp (List.mem_map_of_mem hk))
    rcases List.mem_cons.mp (hperm.mem_iff.mp hy) with rfl | hy
    · rw [← hname, Text.sameName_self] at hdiff
      cases hdiff
    · exact List.mem_map.mpr ⟨y, hy, hname⟩
  · intro hmem
    obtain ⟨y, hy, rfl⟩ := List.mem_map.mp hmem
    have hy' : y ∈ r.entries := hperm.mem_iff.mpr (List.mem_cons_of_mem _ hy)
    obtain ⟨k, hk, hname⟩ := List.mem_map.mp (h.spelt.mem_iff.mpr (List.mem_map_of_mem hy'))
    refine List.mem_map.mpr ⟨k, h.filed.mem_toList_erase.mpr ⟨?_, hk⟩, hname⟩
    rw [hname]
    exact distinct_symm (hout y hy)

theorem removeAt?_isSome {i : Nat} (h : i < r.entries.length) : (r.removeAt? i).isSome = true := by
  rw [Registry.removeAt?, Option.isSome_map, List.getElem?_eq_getElem h]
  rfl

theorem Sound.remove?_eq_none (h : r.Sound) {name : String} (hr : r.remove? name = none) :
    r.contains name = false := by
  refine Bool.eq_false_iff.mpr fun hcontains => ?_
  obtain ⟨e, he, hsame⟩ := h.contains_iff.mp hcontains
  obtain ⟨i, hi⟩ : ∃ i, r.entries.findIdx? (fun e => Text.sameName (Named.name e) name) = some i :=
    ⟨_, List.findIdx?_eq_some_of_exists ⟨e, he, hsame⟩⟩
  obtain ⟨hlt, -⟩ := List.findIdx?_eq_some_iff_getElem.mp hi
  have hsome := removeAt?_isSome hlt
  rw [remove?, h.position?_eq, hi, Option.bind_some] at hr
  rw [hr] at hsome
  cases hsome

/-- Taking the entry with a name out frees the name. -/
theorem Sound.remove?_eq_some (h : r.Sound) {name : String} {e : α} {r' : Registry α}
    (hr : r.remove? name = some (e, r')) :
    r'.Sound ∧ r.entries.Perm (e :: r'.entries) ∧ Text.sameName (Named.name e) name = true ∧
      r'.contains name = false := by
  rw [remove?, h.position?_eq] at hr
  obtain ⟨i, hi, hr⟩ := Option.bind_eq_some_iff.mp hr
  obtain ⟨hlt, hname, -⟩ := List.findIdx?_eq_some_iff_getElem.mp hi
  obtain ⟨hsound, hperm⟩ := h.removeAt? hr
  obtain rfl : r.entries[i] = e := by
    obtain ⟨x, hx, hpair⟩ := Option.map_eq_some_iff.mp hr
    rw [List.getElem?_eq_getElem hlt] at hx
    exact (Option.some.inj hx).trans (Prod.mk.inj hpair).1
  refine ⟨hsound, hperm, hname, Bool.eq_false_iff.mpr fun hcontains => ?_⟩
  obtain ⟨x, hx, hsame⟩ := hsound.contains_iff.mp hcontains
  have hdistinct := (hperm.pairwise_iff distinct_symm).mp h.distinct
  have hdiff := (List.pairwise_cons.mp hdistinct).1 x hx
  rw [sameName_of_both hname hsame] at hdiff
  cases hdiff

/-- **Entries that are changed in place keep a registry sound exactly if all names stay.** -/
theorem Sound.mapEntries_iff (h : r.Sound) (f : α → α) :
    Sound { r with entries := r.entries.map f } ↔
      ((r.entries.map f).map Named.name).Perm (r.entries.map Named.name) :=
  ⟨fun hf => hf.spelt.symm.trans h.spelt, fun hperm => ⟨h.filed, h.spelt.trans hperm.symm⟩⟩

theorem map_name_map {f : α → α} {es : List α} (hf : ∀ e ∈ es, Named.name (f e) = Named.name e) :
    (es.map f).map Named.name = es.map Named.name := by
  rw [List.map_map]
  exact List.map_congr_left hf

/-- The change for the entry with the name, and none for the others. -/
def onName (name : String) (f : α → α) (e : α) : α :=
  if Text.sameName (Named.name e) name then f e else e

theorem name_onName {f : α → α} (hf : ∀ e, Named.name (f e) = Named.name e) (name : String)
    (e : α) : Named.name (onName name f e) = Named.name e := by
  unfold onName
  split
  · exact hf e
  · rfl

/-- A change of the entry with a name changes every entry, though the others to themselves. -/
theorem Sound.modify_eq (h : r.Sound) (name : String) (f : α → α) :
    r.modify name f = { r with entries := r.entries.map (onName name f) } := by
  unfold modify
  rw [h.position?_eq]
  cases hi : r.entries.findIdx? fun e => Text.sameName (Named.name e) name with
  | none =>
    have hno := List.findIdx?_eq_none_iff.mp hi
    have hself : r.entries.map (onName name f) = r.entries := by
      refine (List.map_congr_left fun e he => ?_).trans (List.map_id _)
      exact if_neg (by simp [hno e he])
    dsimp only
    rw [hself]
  | some i =>
    obtain ⟨hlt, hname, -⟩ := List.findIdx?_eq_some_iff_getElem.mp hi
    have hother : ∀ j (hj : j < r.entries.length), i ≠ j →
        Text.sameName (Named.name r.entries[j]) name = false := by
      intro j hj hij
      have hpairs := List.pairwise_iff_getElem.mp h.distinct
      have hdiff : Text.sameName (Named.name r.entries[j]) (Named.name r.entries[i]) = false := by
        rcases Nat.lt_or_gt_of_ne hij with hlt' | hlt'
        · exact distinct_symm (hpairs i j hlt hj hlt')
        · exact hpairs j i hj hlt hlt'
      refine Bool.eq_false_iff.mpr fun hsame => ?_
      rw [sameName_of_both hsame hname] at hdiff
      cases hdiff
    dsimp only
    congr 1
    refine List.ext_getElem (by simp) fun j hj _ => ?_
    have hj' : j < r.entries.length := by simpa using hj
    rw [List.getElem_modify, List.getElem_map]
    by_cases hij : i = j
    · subst hij
      rw [if_pos rfl]
      exact (if_pos hname).symm
    · rw [if_neg hij]
      exact (if_neg (by simp [hother j hj' hij])).symm

theorem Sound.modify (h : r.Sound) {name : String} {f : α → α}
    (hf : ∀ e, Named.name (f e) = Named.name e) : (r.modify name f).Sound := by
  rw [h.modify_eq, h.mapEntries_iff, map_name_map fun e _ => name_onName hf name e]

end Registry

end DevConsole
