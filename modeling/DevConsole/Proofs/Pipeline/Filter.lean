import DevConsole.Console.Builtin
import Mathlib.Data.List.Infix

/-!
# Filters

What `grep` and `sort` make of the lines they are handed. `grep` keeps the lines that hold a text,
`sort` puts the lines in order and keeps the order of equal ones (`meets_apply`), and both commute
with leaving out lines by any test (`filter_apply`).
-/

namespace DevConsole

/-- A filter as it is typed behind a pipe. -/
inductive Filter
  | grep (part : String)
  | sort
  | sortBy (order : Int32)
  deriving DecidableEq

/-- The second list is the first one in order, equal lines in the order they had. -/
structure StablySorted (ls out : List String) : Prop where
  perm : out.Perm ls
  ordered : out.Pairwise fun a b => Text.fold a ≤ Text.fold b
  stable : ∀ key, out.filter (Text.fold · == key) = ls.filter (Text.fold · == key)

namespace Filter

/-- What the filter makes of lines. -/
def apply : Filter → List String → List String
  | grep part, ls => Builtin.keepMatching part ls
  | sort, ls => Builtin.sortLines ls
  | sortBy order, ls =>
    if order < 0 then (Builtin.sortLines ls).reverse else Builtin.sortLines ls

/-- One filter after the other. -/
def applyAll (fs : List Filter) (ls : List String) : List String :=
  fs.foldl (fun ls f => f.apply ls) ls

/-- What the filter is asked for. -/
def Meets : Filter → List String → List String → Prop
  | grep part, ls, out => out = ls.filter fun l => decide (part.toList <:+: l.toList)
  | sort, ls, out => StablySorted ls out
  | sortBy order, ls, out => StablySorted ls (if order < 0 then out.reverse else out)

/-- The filter keeps lines for what they hold. -/
def isGrep : Filter → Bool
  | grep _ => true
  | _ => false

end Filter

/-! ### Sorting -/

section Sorting
variable {α : Type} {le : α → α → Bool}

/-- The two cuts of a list at the place where the test starts to hold are the same. -/
theorem append_inj_of_test {q : α → Bool} {xs ys xs' ys' : List α} (h : xs ++ ys = xs' ++ ys')
    (hxs : ∀ x ∈ xs, q x = false) (hxs' : ∀ x ∈ xs', q x = false) (hys : ∀ y ∈ ys, q y = true)
    (hys' : ∀ y ∈ ys', q y = true) : xs = xs' ∧ ys = ys' := by
  have hcut : ∀ as bs : List α, (∀ a ∈ as, q a = false) → (∀ b ∈ bs, q b = true) →
      (as ++ bs).filter (fun x => !q x) = as ∧ (as ++ bs).filter q = bs := by
    intro as bs has hbs
    rw [List.filter_append, List.filter_append]
    refine ⟨?_, ?_⟩
    · rw [List.filter_eq_self.mpr (by simpa using has),
        List.filter_eq_nil_iff.mpr (by simpa using hbs),
        List.append_nil]
    · rw [List.filter_eq_nil_iff.mpr (by simpa using has), List.filter_eq_self.mpr hbs,
        List.nil_append]
  obtain ⟨h1, h2⟩ := hcut xs ys hxs hys
  obtain ⟨h1', h2'⟩ := hcut xs' ys' hxs' hys'
  rw [h] at h1 h2
  exact ⟨h1.symm.trans h1', h2.symm.trans h2'⟩

/-- **Leaving out elements does not change how the others are sorted.** -/
theorem filter_mergeSort (trans : ∀ a b c, le a b = true → le b c = true → le a c = true)
    (total : ∀ a b, (le a b || le b a) = true) (p : α → Bool) (l : List α) :
    (l.mergeSort le).filter p = (l.filter p).mergeSort le := by
  induction l with
  | nil => simp
  | cons a l ih =>
    obtain ⟨xs, ys, hcons, hl, hxs⟩ := List.mergeSort_cons trans total a l
    rw [hl, List.filter_append] at ih
    cases ha : p a with
    | false => rw [hcons, List.filter_append, List.filter_cons_of_neg (by simp [ha]), ih,
        List.filter_cons_of_neg (by simp [ha])]
    | true =>
      rw [hcons, List.filter_append, List.filter_cons_of_pos ha, List.filter_cons_of_pos ha]
      obtain ⟨xs', ys', hcons', hl', hxs'⟩ := List.mergeSort_cons trans total a (l.filter p)
      -- the element stands behind the same elements in both lists: those it is not before
      have hys : ∀ (l : List α) (as bs : List α), (a :: l).mergeSort le = as ++ a :: bs →
          ∀ b ∈ bs, le a b = true := by
        intro l as bs h
        have hsorted := List.pairwise_mergeSort trans total (a :: l)
        rw [h] at hsorted
        exact (List.pairwise_cons.mp (List.pairwise_append.mp hsorted).2.1).1
      obtain ⟨h1, h2⟩ := append_inj_of_test (q := le a) (ih.trans hl')
        (fun x hx => by simpa using hxs x (List.mem_filter.mp hx).1)
        (fun x hx => by simpa using hxs' x hx)
        (fun y hy => hys l xs ys hcons y (List.mem_filter.mp hy).1) (hys _ xs' ys' hcons')
      rw [hcons', h1, h2]

end Sorting

namespace Builtin

/-- How `sort` compares lines. -/
abbrev comesFirst (a b : String) : Bool := decide (Text.fold a ≤ Text.fold b)

theorem comesFirst_trans (a b c : String) (hab : comesFirst a b = true)
    (hbc : comesFirst b c = true) : comesFirst a c = true := by
  rw [decide_eq_true_iff] at *
  exact String.le_trans hab hbc

theorem comesFirst_total (a b : String) : (comesFirst a b || comesFirst b a) = true := by
  rw [Bool.or_eq_true, decide_eq_true_iff, decide_eq_true_iff]
  exact String.le_total _ _

theorem filter_sortLines (p : String → Bool) (ls : List String) :
    (sortLines ls).filter p = sortLines (ls.filter p) :=
  filter_mergeSort comesFirst_trans comesFirst_total p ls

theorem stablySorted_sortLines (ls : List String) : StablySorted ls (sortLines ls) where
  perm := List.mergeSort_perm _ _
  ordered := (List.pairwise_mergeSort comesFirst_trans comesFirst_total ls).imp of_decide_eq_true
  stable key := by
    rw [filter_sortLines]
    refine List.mergeSort_of_pairwise (List.pairwise_iff_forall_sublist.mpr fun {a b} hab => ?_)
    have hkey : ∀ l ∈ ls.filter (Text.fold · == key), Text.fold l = key :=
      fun l hl => by simpa using (List.mem_filter.mp hl).2
    rw [hkey a (hab.subset (by simp)), hkey b (hab.subset (by simp))]
    exact decide_eq_true (String.le_refl key)

end Builtin

namespace Filter

/-- **A filter does what it is asked for.** -/
theorem meets_apply (f : Filter) (ls : List String) : f.Meets ls (f.apply ls) := by
  cases f with
  | grep part =>
    refine List.filter_congr fun l _ => ?_
    rw [Bool.eq_iff_iff, decide_eq_true_iff]
    exact Text.occursIn_iff
  | sort => exact Builtin.stablySorted_sortLines ls
  | sortBy order =>
    have hsorted := Builtin.stablySorted_sortLines ls
    by_cases h : order < 0
    · simpa only [Meets, apply, if_pos h, List.reverse_reverse] using hsorted
    · simpa only [Meets, apply, if_neg h] using hsorted

theorem filter_apply (f : Filter) (p : String → Bool) (ls : List String) :
    (f.apply ls).filter p = f.apply (ls.filter p) := by
  cases f with
  | grep part =>
    show (List.filter _ ls).filter p = List.filter _ (ls.filter p)
    rw [List.filter_filter, List.filter_filter]
    exact List.filter_congr fun l _ => Bool.and_comm _ _
  | sort => exact Builtin.filter_sortLines p ls
  | sortBy order =>
    have hsort := Builtin.filter_sortLines p ls
    by_cases h : order < 0
    · simp only [apply, if_pos h, List.filter_reverse, hsort]
    · simp only [apply, if_neg h, hsort]

theorem filter_applyAll (p : String → Bool) : ∀ (fs : List Filter) (ls : List String),
    (applyAll fs ls).filter p = applyAll fs (ls.filter p)
  | [], _ => rfl
  | f :: fs, ls => by
    show (applyAll fs (f.apply ls)).filter p = applyAll fs (f.apply (ls.filter p))
    rw [filter_applyAll p fs, filter_apply]

theorem mem_of_mem_apply {f : Filter} {ls : List String} {l : String} (h : l ∈ f.apply ls) :
    l ∈ ls := by
  have hsort : ∀ {l}, l ∈ Builtin.sortLines ls → l ∈ ls :=
    fun h => (Builtin.stablySorted_sortLines ls).perm.mem_iff.mp h
  cases f with
  | grep part => exact (List.mem_filter.mp h).1
  | sort => exact hsort h
  | sortBy order =>
    by_cases horder : order < 0
    · simp only [apply, if_pos horder] at h
      exact hsort (List.mem_reverse.mp h)
    · simp only [apply, if_neg horder] at h
      exact hsort h

/-! ### Empty lines -/

/-- `grep` leaves out empty lines, and no other filter does. -/
theorem empty_mem_apply_iff {f : Filter} (hf : ∀ part, f = grep part → part ≠ "")
    {ls : List String} : "" ∈ f.apply ls ↔ "" ∈ ls ∧ f.isGrep = false := by
  have hsort : "" ∈ Builtin.sortLines ls ↔ "" ∈ ls :=
    (Builtin.stablySorted_sortLines ls).perm.mem_iff
  cases f with
  | grep part =>
    refine ⟨fun h => ?_, fun h => by cases h.2⟩
    have hcontains : Text.contains "" part = true := (List.mem_filter.mp h).2
    have hpart : part.toList = [] := List.infix_nil.mp (Text.occursIn_iff.mp hcontains)
    exact absurd (String.toList_eq_nil_iff.mp hpart) (hf part rfl)
  | sort => exact ⟨fun h => ⟨hsort.mp h, rfl⟩, fun h => hsort.mpr h.1⟩
  | sortBy order =>
    by_cases horder : order < 0
    · simp only [apply, if_pos horder, List.mem_reverse, hsort, isGrep, and_true]
    · simp only [apply, if_neg horder, hsort, isGrep, and_true]

theorem empty_mem_applyAll_iff : ∀ {fs : List Filter} (_ : ∀ part, grep part ∈ fs → part ≠ "")
    {ls : List String}, "" ∈ applyAll fs ls ↔ "" ∈ ls ∧ ∀ f ∈ fs, f.isGrep = false
  | [], _, ls => by simp [applyAll]
  | f :: fs, h, ls => by
    have ih : "" ∈ applyAll fs (f.apply ls) ↔ "" ∈ f.apply ls ∧ ∀ f ∈ fs, f.isGrep = false :=
      empty_mem_applyAll_iff fun part hp => h part (List.mem_cons_of_mem f hp)
    have hf : "" ∈ f.apply ls ↔ "" ∈ ls ∧ f.isGrep = false :=
      empty_mem_apply_iff fun part hp => h part (hp ▸ List.mem_cons_self)
    show "" ∈ applyAll fs (f.apply ls) ↔ _
    rw [ih, hf, List.forall_mem_cons, and_assoc]

/-- **Leaving out the empty lines first makes a difference exactly if there are any and no filter is
`grep`.** -/
theorem applyAll_nonempty_iff {fs : List Filter} (h : ∀ part, grep part ∈ fs → part ≠ "")
    (ls : List String) : applyAll fs (ls.filter (· ≠ "")) = applyAll fs ls ↔
      "" ∉ ls ∨ ∃ f ∈ fs, f.isGrep = true := by
  rw [← filter_applyAll, List.filter_eq_self]
  have hmem : "" ∈ applyAll fs ls ↔ "" ∈ ls ∧ ∀ f ∈ fs, f.isGrep = false :=
    empty_mem_applyAll_iff h
  constructor
  · intro hall
    by_cases hls : "" ∈ ls
    · refine Or.inr (Classical.byContradiction fun hno => ?_)
      have hnone : ∀ f ∈ fs, f.isGrep = false :=
        fun f hf => Bool.eq_false_iff.mpr fun hg => hno ⟨f, hf, hg⟩
      have := hall "" (hmem.mpr ⟨hls, hnone⟩)
      simp at this
    · exact Or.inl hls
  · intro hor l hl
    rw [decide_eq_true_iff]
    rintro rfl
    obtain ⟨hls, hnone⟩ := hmem.mp hl
    rcases hor with hno | ⟨f, hf, hg⟩
    · exact hno hls
    · rw [hnone f hf] at hg
      cases hg

end Filter

end DevConsole
