import DevConsole.Proofs.Table.Trie
import Mathlib.Data.Finmap

/-!
# Tries as maps

A trie stands for a finite map from folded keys, which holds under each of them the key as it was last
spelt and its value (`Trie.Models`). A change of the trie changes the map alike and answers what the
map answers (`Models.run`), so by induction a trie that was empty before any changes stands for the
map that they make. What the trie says about its keys is then read off the map, and the order of its
entries off the order of its nodes (`changes_ordered_map`).
-/

namespace DevConsole

namespace Trie

variable {α : Type}

/-- The keys as they were last spelt and their values, under the folded keys. -/
abbrev Map (α : Type) := Finmap fun _ : String => String × α

/-- A change of a trie. -/
inductive Change (α : Type)
  | insert (key : String) (value : α)
  | remove (key : String)
  | clear

namespace Change

/-- What a trie answers to a change, and the trie after it. -/
def run : Change α → Trie α → Option α × Trie α
  | insert key value, t => t.getThenInsert key value
  | remove key, t => t.getThenErase key
  | clear, _ => (none, empty)

/-- What a map answers to a change, and the map after it. -/
def runMap : Change α → Map α → Option α × Map α
  | insert key value, m =>
    ((m.lookup (Text.fold key)).map Prod.snd, m.insert (Text.fold key) (key, value))
  | remove key, m => ((m.lookup (Text.fold key)).map Prod.snd, m.erase (Text.fold key))
  | clear, _ => (none, ∅)

/-- The answers to changes one after the other, and what they lead to. -/
def runAll {σ : Type} (run : Change α → σ → Option α × σ) :
    List (Change α) → σ → List (Option α) × σ
  | [], s => ([], s)
  | c :: cs, s => ((run c s).1 :: (runAll run cs (run c s).2).1, (runAll run cs (run c s).2).2)

end Change

/-- The trie stands for the map. -/
structure Models (t : Trie α) (m : Map α) : Prop where
  filed : t.Filed
  find? : ∀ key, t.find? key = m.lookup (Text.fold key)
  size : t.size = m.keys.card

variable {t : Trie α} {m : Map α}

/-! ### Changes -/

theorem find?_empty (key : String) : (empty : Trie α).find? key = none :=
  TrieNode.entry_of_value_eq_none (TrieNode.value_of_isVacant rfl _)

theorem models_empty : Models (empty : Trie α) ∅ where
  filed := filed_empty
  find? key := by rw [find?_empty, Finmap.lookup_empty]
  size := rfl

theorem Models.getThenInsert_fst (h : Models t m) (key : String) (value : α) :
    (t.getThenInsert key value).1 = (m.lookup (Text.fold key)).map Prod.snd := by
  rw [← h.find?, ← h.filed.get?_eq]
  exact TrieNode.insert_fst key value _ t.root

theorem Models.getThenErase_fst (h : Models t m) (key : String) :
    (t.getThenErase key).1 = (m.lookup (Text.fold key)).map Prod.snd := by
  rw [← h.find?, ← h.filed.get?_eq]
  exact TrieNode.remove_fst _ t.root

theorem Models.insert (h : Models t m) (key : String) (value : α) :
    Models (t.insert key value) (m.insert (Text.fold key) (key, value)) where
  filed := h.filed.insert key value
  find? k := by
    rw [find?_insert, h.find?]
    split
    · next hsame => rw [Text.fold_eq_iff.mpr hsame, Finmap.lookup_insert]
    · next hdiff => rw [Finmap.lookup_insert_of_ne _ (mt Text.fold_eq_iff.mp hdiff)]
  size := by
    have hkeys : (m.insert (Text.fold key) (key, value)).keys =
        Insert.insert (Text.fold key) m.keys := by
      ext k
      simp [Finmap.mem_keys]
    show (if (t.getThenInsert key value).1.isNone then t.size + 1 else t.size) = _
    rw [h.getThenInsert_fst, h.size, Option.isNone_map, hkeys]
    by_cases hkey : Text.fold key ∈ m
    · have hsome : (m.lookup (Text.fold key)).isNone = false :=
        Option.isNone_eq_false_iff.mpr (Finmap.lookup_isSome.mpr hkey)
      rw [hsome, Finset.insert_eq_of_mem (Finmap.mem_keys.mpr hkey)]
      rfl
    · rw [Finmap.lookup_eq_none.mpr hkey, Finset.card_insert_of_notMem (mt Finmap.mem_keys.mp hkey)]
      rfl

theorem Models.erase (h : Models t m) (key : String) :
    Models (t.erase key) (m.erase (Text.fold key)) where
  filed := h.filed.erase key
  find? k := by
    rw [h.filed.find?_erase, h.find?]
    split
    · next hsame => rw [Text.fold_eq_iff.mpr hsame, Finmap.lookup_erase]
    · next hdiff => rw [Finmap.lookup_erase_ne (mt Text.fold_eq_iff.mp hdiff)]
  size := by
    show (if (t.getThenErase key).1.isSome then t.size - 1 else t.size) = _
    rw [h.getThenErase_fst, h.size, Option.isSome_map, Finmap.keys_erase]
    by_cases hkey : Text.fold key ∈ m
    · rw [Finset.card_erase_of_mem (Finmap.mem_keys.mpr hkey), if_pos (Finmap.lookup_isSome.mpr hkey)]
    · rw [Finmap.lookup_eq_none.mpr hkey, Finset.erase_eq_of_notMem (mt Finmap.mem_keys.mp hkey)]
      rfl

/-- **A change of a trie is that of the map it stands for.** -/
theorem Models.run (h : Models t m) (c : Change α) :
    (c.run t).1 = (c.runMap m).1 ∧ Models (c.run t).2 (c.runMap m).2 := by
  cases c with
  | insert key value => exact ⟨h.getThenInsert_fst key value, h.insert key value⟩
  | remove key => exact ⟨h.getThenErase_fst key, h.erase key⟩
  | clear => exact ⟨rfl, models_empty⟩

theorem Models.runAll (h : Models t m) (cs : List (Change α)) :
    (Change.runAll Change.run cs t).1 = (Change.runAll Change.runMap cs m).1 ∧
      Models (Change.runAll Change.run cs t).2 (Change.runAll Change.runMap cs m).2 := by
  induction cs generalizing t m with
  | nil => exact ⟨rfl, h⟩
  | cons c cs ih =>
    obtain ⟨hanswer, hnext⟩ := h.run c
    obtain ⟨hanswers, hlast⟩ := ih hnext
    exact ⟨congrArg₂ List.cons hanswer hanswers, hlast⟩

/-! ### What a trie says -/

/-- The trie says of its keys what the map says, and lists them in order. -/
structure Says (t : Trie α) (m : Map α) : Prop where
  get? : ∀ key, t.get? key = (m.lookup (Text.fold key)).map Prod.snd
  spelling? : ∀ key, t.spelling? key = (m.lookup (Text.fold key)).map Prod.fst
  contains : ∀ key, t.contains key = true ↔ Text.fold key ∈ m
  size : t.size = m.keys.card
  isEmpty : t.isEmpty = true ↔ m = ∅
  /-- The entries under a beginning are those of the keys that begin with it. -/
  startingWith : ∀ lead e, e ∈ t.startingWith lead ↔
    m.lookup (Text.fold e.1) = some e ∧ Text.startsName lead e.1 = true
  /-- They stand in the order of the folded keys, each of them once. -/
  ascending : ∀ lead, (t.startingWith lead).Pairwise fun x y => Text.Before x.1 y.1

/-- Each node has a spelling exactly if it has a value, and each one below the root is kept for a
value. -/
def Tidy (t : Trie α) : Prop :=
  ∀ p n, t.root.descend p = some n → (n.key.isSome = true ↔ n.value.isSome = true) ∧
    (p ≠ [] → n.isVacant = false ∧ ∃ q m, n.descend q = some m ∧ m.value.isSome = true)

theorem Models.says (h : Models t m) : Says t m where
  get? key := by rw [h.filed.get?_eq, h.find?]
  spelling? key := by rw [h.filed.spelling?_eq, h.find?]
  contains key := by
    rw [Trie.contains, h.filed.get?_eq, h.find?, Option.isSome_map]
    exact Finmap.lookup_isSome
  size := h.size
  isEmpty := by
    rw [Trie.isEmpty, h.size, beq_iff_eq, Finset.card_eq_zero]
    refine ⟨fun hkeys => Finmap.ext_lookup fun k => ?_, fun hm => by rw [hm]; rfl⟩
    have hk : k ∉ m := fun hk => Finset.eq_empty_iff_forall_notMem.mp hkeys k (Finmap.mem_keys.mpr hk)
    rw [Finmap.lookup_eq_none.mpr hk, Finmap.lookup_empty]
  startingWith lead e := by
    rw [h.filed.mem_startingWith_iff, h.filed.mem_toList_iff_find?, h.find?]
  ascending := h.filed.ascending

theorem Filed.tidy (h : t.Filed) : t.Tidy := by
  intro p n hn
  have hsound := h.sound.descend hn
  refine ⟨by rw [hsound.paired], fun hp => ?_⟩
  have hlive := h.sound.live_of_descend hp hn
  exact ⟨hlive.occupied, hsound.exists_value hlive⟩

/-- **A trie is an ordered map in which letter case plays no role**: after any changes of an empty
trie it has answered and says what the map from folded keys does, and there are no nodes in it that
lead to no value. -/
theorem changes_ordered_map (cs : List (Change α)) :
    (Change.runAll Change.run cs empty).1 = (Change.runAll Change.runMap cs ∅).1 ∧
      Says (Change.runAll Change.run cs empty).2 (Change.runAll Change.runMap cs ∅).2 ∧
        Tidy (Change.runAll Change.run cs empty).2 := by
  obtain ⟨hanswers, hmodels⟩ := (models_empty (α := α)).runAll cs
  exact ⟨hanswers, hmodels.says, hmodels.filed.tidy⟩

example : (Change.runAll Change.run [.insert "test" 1, .insert "Testing" 2, .remove "TESTING"]
    empty).1 = [none, none, some 2] := by decide +kernel

end Trie

end DevConsole
