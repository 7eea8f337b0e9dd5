import DevConsole.Console
import DevConsole.Proofs.Text.Folded
import Mathlib.Data.List.Infix
import Mathlib.Data.List.TakeWhile
import Mathlib.Order.Bounds.Basic
import Mathlib.Order.MinMax

/-!
# Where completion cuts

A position in a text is one between two characters exactly if a beginning of the text has that many
bytes (`takeBytes?_eq_some_iff`). The scan for the last word, from the end of a line, finds such a
position (`splitBytes?_wordStart`), right after a character that ends a word or after a marker that
follows one (`lastWord_splitLastWord`). The scan for the first pair of characters that differ finds
how far two names agree (`sharedLength_cons_cons`). For several names that is such a position in the
first of them and the greatest one (`isGreatest_commonLength`): folding keeps the number of bytes of
each character, so names that agree up to a place have it at the same position.
-/

namespace DevConsole

open Text

/-! ### Positions between characters -/

theorem isPrefix_of_takeBytes? {n : ℕ} {cs xs : List Char} (h : takeBytes? n cs = some xs) :
    xs <+: cs := by
  induction cs generalizing n xs with
  | nil =>
    cases n with
    | zero => exact Option.some.inj h ▸ List.nil_prefix
    | succ n => cases h
  | cons c cs ih =>
    cases n with
    | zero => exact Option.some.inj h ▸ List.nil_prefix
    | succ n =>
      rw [takeBytes?] at h
      split_ifs at h
      obtain ⟨ys, hys, rfl⟩ := Option.map_eq_some_iff.mp h
      exact List.cons_prefix_cons.mpr ⟨rfl, ih hys⟩

/-- **A beginning of a text can be cut off at its number of bytes**, and nothing else can. -/
theorem takeBytes?_eq_some_iff {n : ℕ} {cs xs : List Char} :
    takeBytes? n cs = some xs ↔ xs <+: cs ∧ byteLength xs = n := by
  refine ⟨fun h => ⟨isPrefix_of_takeBytes? h, byteLength_of_takeBytes? h⟩, ?_⟩
  rintro ⟨⟨ys, rfl⟩, rfl⟩
  exact takeBytes?_byteLength xs ys

theorem byteLength_le_of_isPrefix {xs cs : List Char} (h : xs <+: cs) :
    byteLength xs ≤ byteLength cs := by
  obtain ⟨ys, rfl⟩ := h
  rw [byteLength_append]
  exact Nat.le_add_right _ _

/-! ### The last word -/

/-- A word can start after these characters: there are none, or the last one ends a word. -/
def AtWordStart (before : List Char) : Prop := ∀ c, before.getLast? = some c → endsWord c = true

/-- The characters split at the last word, with a marker in front of it left before the cut. -/
structure LastWord (cs before word : List Char) : Prop where
  append : before ++ word = cs
  bare : ∀ c ∈ word, endsWord c = false
  start : AtWordStart before ∨ ∃ outer, before = outer ++ ['@'] ∧ AtWordStart outer

/-- The characters behind the last one that ends a word. -/
theorem exists_lastBreak (cs : List Char) : ∃ before word, cs = before ++ word ∧ AtWordStart before ∧
    ∀ c ∈ word, endsWord c = false := by
  refine ⟨(cs.reverse.dropWhile fun c => !endsWord c).reverse,
    (cs.reverse.takeWhile fun c => !endsWord c).reverse, ?_, fun c hc => ?_, fun c hc => ?_⟩
  · rw [← List.reverse_append, List.takeWhile_append_dropWhile, List.reverse_reverse]
  · have hnot := List.head?_dropWhile_not (fun c => !endsWord c) cs.reverse
    rw [List.getLast?_reverse] at hc
    rw [hc] at hnot
    simpa using hnot
  · have hkept := List.mem_takeWhile_imp (List.mem_reverse.mp hc)
    rwa [Bool.not_eq_true'] at hkept

/-- The two sides of a word, where a marker in front of it is left before the cut. -/
def leaveMarker (before : List Char) : List Char → List Char × List Char
  | '@' :: rest => (before ++ ['@'], rest)
  | word => (before, word)

theorem leaveMarker_of_ne {word : List Char} (h : word.head? ≠ some '@') (before : List Char) :
    leaveMarker before word = (before, word) := by
  unfold leaveMarker
  split
  · exact absurd rfl h
  · rfl

section LastBreak
variable {before word : List Char} (hstart : AtWordStart before)
  (hbare : ∀ c ∈ word, endsWord c = false)
include hstart hbare

/-- **The scan from the end stops where the word starts.** -/
theorem lastBreak_append : lastBreak (before ++ word) = byteLength before := by
  have hnone : (charIndices (0 + byteLength before) word).reverse.find? (endsWord ·.2) = none := by
    refine List.find?_eq_none.mpr fun p hp => ?_
    have hmem := List.mem_map_of_mem (f := Prod.snd) (List.mem_reverse.mp hp)
    rw [map_snd_charIndices] at hmem
    rw [hbare _ hmem]
    exact Bool.false_ne_true
  rw [lastBreak, charIndices_append, List.reverse_append, List.find?_append, hnone, Option.none_or]
  rcases List.eq_nil_or_concat' before with rfl | ⟨before, c, rfl⟩
  · rfl
  · have hends : endsWord c = true := hstart c List.getLast?_concat
    have hfind : (charIndices 0 (before ++ [c])).reverse.find? (endsWord ·.2) =
        some (byteLength before, c) := by
      rw [charIndices_append, Nat.zero_add, charIndices, charIndices, List.reverse_concat,
        List.find?_cons, hends]
    rw [hfind, byteLength_append, byteLength, byteLength]
    rfl

/-- A marker in front of the word is left before it. -/
theorem wordStart_append : wordStart (before ++ word) =
    if word.head? = some '@' then byteLength before + 1 else byteLength before := by
  rw [wordStart, lastBreak_append hstart hbare, dropBytes?_byteLength, Option.getD_some,
    silentMarker]

/-- **The last word starts at a position between two characters.** -/
theorem splitBytes?_wordStart :
    splitBytes? (wordStart (before ++ word)) (before ++ word) = some (leaveMarker before word) := by
  rw [wordStart_append hstart hbare]
  by_cases hmarker : word.head? = some '@'
  · obtain ⟨rest, rfl⟩ := List.head?_eq_some_iff.mp hmarker
    have hone : byteLength before + 1 = byteLength (before ++ ['@']) := by
      rw [byteLength_append]
      rfl
    have happend : before ++ '@' :: rest = before ++ ['@'] ++ rest := by simp
    rw [if_pos hmarker, hone, happend, splitBytes?_byteLength]
    rfl
  · rw [if_neg hmarker, splitBytes?_byteLength, leaveMarker_of_ne hmarker]

theorem splitLastWord_append : splitLastWord (before ++ word) = leaveMarker before word := by
  rw [splitLastWord, splitBytes?_wordStart hstart hbare, Option.getD_some]

end LastBreak

/-- The cuts for the last word are between characters: where the marker is looked for, and where the
word starts. -/
theorem cuts_at_lastWord (line : String) :
    (∃ tail, dropBytes? (lastBreak line.toList) line.toList = some tail) ∧
      takeBytes? (lastWordStart line) line.toList = some (splitLastWord line.toList).1 ∧
      dropBytes? (lastWordStart line) line.toList = some (splitLastWord line.toList).2 := by
  obtain ⟨before, word, hsplit, hstart, hbare⟩ := exists_lastBreak line.toList
  rw [lastWordStart, hsplit, lastBreak_append hstart hbare, splitLastWord_append hstart hbare]
  obtain ⟨xs, htake, hdrop⟩ := Option.bind_eq_some_iff.mp (splitBytes?_wordStart hstart hbare)
  obtain ⟨ys, hdrop, hpair⟩ := Option.map_eq_some_iff.mp hdrop
  rw [htake, hdrop, ← hpair]
  exact ⟨⟨word, dropBytes?_byteLength before word⟩, rfl, rfl⟩

/-- **A line is split at its last word.** -/
theorem lastWord_splitLastWord (cs : List Char) :
    LastWord cs (splitLastWord cs).1 (splitLastWord cs).2 := by
  obtain ⟨before, word, rfl, hstart, hbare⟩ := exists_lastBreak cs
  rw [splitLastWord_append hstart hbare]
  unfold leaveMarker
  split
  · refine ⟨?_, fun c hc => hbare c (List.mem_cons_of_mem _ hc), .inr ⟨before, rfl, hstart⟩⟩
    rw [List.append_assoc]
    rfl
  · exact ⟨rfl, hbare, .inl hstart⟩

/-! ### How far names agree -/

theorem utf8Size_toLower (c : Char) : c.toLower.utf8Size = c.utf8Size := by
  rw [← String.length_utf8EncodeChar, ← map_foldByte_utf8EncodeChar, List.length_map,
    String.length_utf8EncodeChar]

theorem byteLength_foldChars (cs : List Char) : byteLength (foldChars cs) = byteLength cs := by
  induction cs with
  | nil => rfl
  | cons c cs ih =>
    rw [foldChars, List.map_cons, byteLength, byteLength, utf8Size_toLower]
    exact congrArg (c.utf8Size + ·) ih

/-! The scan for the first pair that differs, by recursion on both texts. -/

theorem sharedLength_nil (bs : List Char) : sharedLength [] bs = 0 := Nat.zero_min _

theorem sharedLength_cons_nil (a : Char) (as : List Char) : sharedLength (a :: as) [] = 0 :=
  Nat.min_zero _

theorem sharedLength_cons_cons (a b : Char) (as bs : List Char) : sharedLength (a :: as) (b :: bs) =
    if a.toLower = b.toLower then a.utf8Size + sharedLength as bs else 0 := by
  unfold sharedLength
  rw [charIndices, List.zip_cons_cons]
  split_ifs with hab
  · have hagree : differ ((0, a), b) = false := bne_eq_false_iff_eq.mpr hab
    have hsize : b.utf8Size = a.utf8Size := by rw [← utf8Size_toLower, ← hab, utf8Size_toLower]
    -- the rest is compared at positions that are shifted by the first character
    have hshift : charIndices (0 + a.utf8Size) as =
        (charIndices 0 as).map (Prod.map (a.utf8Size + ·) id) := by
      rw [Nat.add_comm, charIndices_add]
    have hsame : differ ∘ Prod.map (Prod.map (a.utf8Size + ·) id) id = differ := rfl
    rw [List.find?_cons, hagree, hshift, List.zip_map_left, List.find?_map, hsame, byteLength,
      byteLength, hsize]
    cases ((charIndices 0 as).zip bs).find? differ with
    | none => exact Nat.add_min_add_left ..
    | some p => rfl
  · have hdiffer : differ ((0, a), b) = true := bne_iff_ne.mpr hab
    rw [List.find?_cons, hdiffer]

/-- Two texts agree up to a position between characters of the first one. -/
theorem exists_isPrefix_sharedLength : ∀ as bs : List Char,
    ∃ p, p <+: as ∧ byteLength p = sharedLength as bs
  | [], bs => ⟨[], List.nil_prefix, (sharedLength_nil bs).symm⟩
  | a :: as, [] => ⟨[], List.nil_prefix, (sharedLength_cons_nil a as).symm⟩
  | a :: as, b :: bs => by
    rw [sharedLength_cons_cons]
    split_ifs
    · obtain ⟨p, hp, hlength⟩ := exists_isPrefix_sharedLength as bs
      exact ⟨a :: p, List.cons_prefix_cons.mpr ⟨rfl, hp⟩, by rw [byteLength, hlength]⟩
    · exact ⟨[], List.nil_prefix, rfl⟩

theorem exists_isPrefix_cons_iff {a b : Char} {p bs : List Char} :
    (∃ q, q <+: b :: bs ∧ foldChars q = foldChars (a :: p)) ↔
      a.toLower = b.toLower ∧ ∃ q, q <+: bs ∧ foldChars q = foldChars p := by
  constructor
  · rintro ⟨_ | ⟨d, q⟩, hq, hfold⟩
    · cases hfold
    · obtain ⟨rfl, hrest⟩ := List.cons_prefix_cons.mp hq
      obtain ⟨hhead, htail⟩ := List.cons.inj hfold
      exact ⟨hhead.symm, q, hrest, htail⟩
  · rintro ⟨hhead, q, hq, hfold⟩
    refine ⟨b :: q, List.cons_prefix_cons.mpr ⟨rfl, hq⟩, ?_⟩
    rw [foldChars, foldChars, List.map_cons, List.map_cons, hhead]
    exact congrArg (b.toLower :: ·) hfold

/-- **A beginning of the first text is within what is shared exactly if the second text begins with
it**, but for case. -/
theorem le_sharedLength_iff {p as bs : List Char} (hp : p <+: as) :
    byteLength p ≤ sharedLength as bs ↔ ∃ q, q <+: bs ∧ foldChars q = foldChars p := by
  induction p generalizing as bs with
  | nil => exact iff_of_true (Nat.zero_le _) ⟨[], List.nil_prefix, rfl⟩
  | cons a p ih =>
    obtain ⟨as, rfl⟩ : ∃ rest, as = a :: rest := by
      obtain ⟨rest, rfl⟩ := hp
      exact ⟨_, rfl⟩
    have hpos := a.utf8Size_pos
    cases bs with
    | nil =>
      rw [sharedLength_cons_nil]
      refine iff_of_false (Nat.not_le.mpr (Nat.add_pos_left hpos _)) ?_
      rintro ⟨q, hq, hfold⟩
      rw [List.prefix_nil.mp hq] at hfold
      cases hfold
    | cons b bs =>
      rw [exists_isPrefix_cons_iff, sharedLength_cons_cons, byteLength,
        ← ih (List.cons_prefix_cons.mp hp).2]
      split_ifs with hab
      · rw [Nat.add_le_add_iff_left, and_iff_right hab]
      · exact iff_of_false (by omega) fun h => hab h.1

/-- The running minimum is one of the lengths that it is taken of, or its start. -/
theorem foldl_min_mem {α : Type} {P : ℕ → Prop} {f : α → ℕ} : ∀ {xs : List α} {n : ℕ}, P n →
    (∀ x ∈ xs, P (f x)) → P (xs.foldl (fun n x => min n (f x)) n)
  | [], _, hn, _ => hn
  | x :: xs, n, hn, h => by
    rw [List.foldl_cons]
    refine foldl_min_mem ?_ fun y hy => h y (List.mem_cons_of_mem x hy)
    rcases min_choice n (f x) with hmin | hmin <;> rw [hmin]
    · exact hn
    · exact h x List.mem_cons_self

theorem le_foldl_min_iff {α : Type} {f : α → ℕ} {m : ℕ} : ∀ {xs : List α} {n : ℕ},
    m ≤ xs.foldl (fun n x => min n (f x)) n ↔ m ≤ n ∧ ∀ x ∈ xs, m ≤ f x
  | [], n => by simp
  | x :: xs, n => by
    rw [List.foldl_cons, le_foldl_min_iff, le_min_iff, List.forall_mem_cons, and_assoc]

/-- The names agree up to a position between characters of the first one. -/
theorem exists_takeBytes?_commonLength (first : String) (names : List String) :
    ∃ lead, takeBytes? (commonLength (first :: names)) first.toList = some lead := by
  obtain ⟨p, hp, hlength⟩ : ∃ p, p <+: first.toList ∧
      byteLength p = commonLength (first :: names) :=
    foldl_min_mem (P := fun n => ∃ p, p <+: first.toList ∧ byteLength p = n)
      ⟨first.toList, List.prefix_rfl, rfl⟩ fun name _ => exists_isPrefix_sharedLength _ name.toList
  exact ⟨p, takeBytes?_eq_some_iff.mpr ⟨hp, hlength⟩⟩

/-- A beginning of the first name is within what all share exactly if all names begin with it, but
for case. -/
theorem le_commonLength_iff {first : String} {names : List String} {p : List Char}
    (hp : p <+: first.toList) : byteLength p ≤ commonLength (first :: names) ↔
      ∀ name ∈ names, ∃ part, takeBytes? (byteLength p) name.toList = some part ∧
        foldChars part = foldChars p := by
  rw [commonLength, le_foldl_min_iff, and_iff_right (byteLength_le_of_isPrefix hp)]
  refine forall₂_congr fun name _ => (le_sharedLength_iff hp).trans (exists_congr fun q => ?_)
  rw [takeBytes?_eq_some_iff, and_assoc]
  refine and_congr_right fun _ => (and_iff_right_of_imp fun hfold => ?_).symm
  rw [← byteLength_foldChars, hfold, byteLength_foldChars]

/-- **The common length is the greatest** up to which the first name can be cut and all names are
spelt alike, but for case. -/
theorem isGreatest_commonLength (first : String) (names : List String) :
    IsGreatest {n | ∃ lead, takeBytes? n first.toList = some lead ∧ ∀ name ∈ names,
      ∃ part, takeBytes? n name.toList = some part ∧ foldChars part = foldChars lead}
      (commonLength (first :: names)) := by
  constructor
  · obtain ⟨lead, hlead⟩ := exists_takeBytes?_commonLength first names
    obtain ⟨hbegins, hlength⟩ := takeBytes?_eq_some_iff.mp hlead
    have hall := (le_commonLength_iff hbegins).mp hlength.le
    rw [hlength] at hall
    exact ⟨lead, hlead, hall⟩
  · rintro n ⟨lead, hlead, hall⟩
    obtain ⟨hbegins, rfl⟩ := takeBytes?_eq_some_iff.mp hlead
    exact (le_commonLength_iff hbegins).mpr hall

/-- The first name can be cut where the common beginning of all ends. -/
theorem takeBytes?_commonLead (first : String) (names : List String) :
    takeBytes? (commonLength (first :: names)) first.toList =
      some (commonLead (first :: names)).toList := by
  obtain ⟨lead, hlead⟩ := exists_takeBytes?_commonLength first names
  rw [commonLead, List.headD_cons, hlead, Option.getD_some, String.toList_ofList]

/-! ### Completing a line -/

namespace Console

theorem completion_complete (c : Console) (part : String) (display auto : Bool) :
    (c.complete part display auto).2.completion =
      .ofNames (String.ofList (splitLastWord part.toList).1)
        (candidates c.commands c.vars c.aliases (String.ofList (splitLastWord part.toList).2)) := by
  unfold complete
  dsimp only
  split <;> rfl

/-- **Completion cuts between characters and at the right ones.** In any line, the marker is looked
for at a position between two characters, and the last word starts at such a position: no character
behind it ends a word, and before it is nothing, a character that ends a word, or one marker where a
word could start. How far names agree is a position between two characters of the first name, the
greatest up to which all are spelt alike but for case. So whatever line is completed on whatever
console, all cuts it takes are possible: those of the line for its last word, and that of the first
candidate at the common length. -/
theorem complete_cuts :
    (∀ line : String, ∃ before word,
      (∃ tail, dropBytes? (lastBreak line.toList) line.toList = some tail) ∧
      takeBytes? (lastWordStart line) line.toList = some before ∧
      dropBytes? (lastWordStart line) line.toList = some word ∧
      lastWordStart line ≤ byteLength line.toList ∧ LastWord line.toList before word) ∧
    commonLength [] = 0 ∧
    (∀ first names, IsGreatest {n | ∃ lead, takeBytes? n first.toList = some lead ∧ ∀ name ∈ names,
      ∃ part, takeBytes? n name.toList = some part ∧ foldChars part = foldChars lead}
      (commonLength (first :: names))) ∧
    ∀ (c : Console) (part : String) (display auto : Bool), ∃ before word,
      part.toList = before ++ word ∧
      takeBytes? (lastWordStart part) part.toList = some before ∧
      dropBytes? (lastWordStart part) part.toList = some word ∧
      let names := candidates c.commands c.vars c.aliases (String.ofList word)
      (c.complete part display auto).2.completion = .ofNames (String.ofList before) names ∧
      (names = [] ∨ ∃ first rest, names = first :: rest ∧
        takeBytes? (commonLength names) first.toList = some (commonLead names).toList) := by
  refine ⟨fun line => ?_, rfl, isGreatest_commonLength, fun c part display auto => ?_⟩
  · obtain ⟨hmarker, htake, hdrop⟩ := cuts_at_lastWord line
    refine ⟨_, _, hmarker, htake, hdrop, ?_, lastWord_splitLastWord line.toList⟩
    obtain ⟨hbegins, hlength⟩ := takeBytes?_eq_some_iff.mp htake
    exact hlength ▸ byteLength_le_of_isPrefix hbegins
  · obtain ⟨-, htake, hdrop⟩ := cuts_at_lastWord part
    refine ⟨_, _, (lastWord_splitLastWord part.toList).append.symm, htake, hdrop,
      c.completion_complete part display auto, ?_⟩
    generalize candidates c.commands c.vars c.aliases _ = names
    cases names with
    | nil => exact .inl rfl
    | cons first rest => exact .inr ⟨first, rest, rfl, takeBytes?_commonLead first rest⟩

end Console

end DevConsole
