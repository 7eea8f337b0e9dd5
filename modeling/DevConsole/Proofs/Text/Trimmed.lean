import DevConsole.Text.Blank
import Mathlib.Data.List.DropRight

/-!
# Trimmed texts and pieces

Trimming leaves a text alone exactly if neither of its ends is white space, and the result of
trimming is such a text. A text without the separator is its own only piece.
-/

namespace DevConsole.Text

/-- Neither end is white space. -/
structure BareEnds (cs : List Char) : Prop where
  head : ∀ c, cs.head? = some c → isBlank c = false
  last : ∀ c, cs.getLast? = some c → isBlank c = false

theorem trimChars_eq_rdropWhile (cs : List Char) :
    trimChars cs = (dropBlank cs).rdropWhile isBlank := rfl

theorem head?_dropBlank {cs : List Char} {c : Char} (h : (dropBlank cs).head? = some c) :
    isBlank c = false := by
  have hnot := List.head?_dropWhile_not isBlank cs
  rw [← dropBlank, h] at hnot
  exact hnot

theorem dropBlank_eq_self {cs : List Char} (h : ∀ c, cs.head? = some c → isBlank c = false) :
    dropBlank cs = cs := by
  cases cs with
  | nil => rfl
  | cons c cs => exact List.dropWhile_cons_of_neg (by simp [h c rfl])

theorem bareEnds_trimChars (cs : List Char) : BareEnds (trimChars cs) where
  head c hc := by
    -- what trimming leaves begins what is left without the leading white space
    obtain ⟨rest, hrest⟩ := List.rdropWhile_prefix isBlank (l := dropBlank cs)
    have hhead : (dropBlank cs).head? = some c := by
      rw [← hrest, List.head?_append, ← trimChars_eq_rdropWhile, hc]
      rfl
    exact head?_dropBlank hhead
  last c hc := by
    rw [trimChars, List.getLast?_reverse] at hc
    exact head?_dropBlank hc

theorem BareEnds.trimChars_eq {cs : List Char} (h : BareEnds cs) : trimChars cs = cs := by
  rw [trimChars, dropBlank_eq_self h.head, dropBlank_eq_self (by simpa using h.last),
    List.reverse_reverse]

theorem trimChars_trimChars (cs : List Char) : trimChars (trimChars cs) = trimChars cs :=
  (bareEnds_trimChars cs).trimChars_eq

@[simp] theorem trim_trim (s : String) : trim (trim s) = trim s := by
  rw [trim, trim, String.toList_ofList, trimChars_trimChars]

/-- White space in front of a text is all that is lost if the text goes on to an end that is not
white space. -/
theorem trimChars_append {xs ys : List Char} (hxs : dropBlank xs ≠ []) (hys : ys ≠ [])
    (h : ∀ c, ys.getLast? = some c → isBlank c = false) :
    trimChars (xs ++ ys) = dropBlank xs ++ ys := by
  have hdrop : dropBlank (xs ++ ys) = dropBlank xs ++ ys := by
    rw [dropBlank, List.dropWhile_append, if_neg (by simpa [dropBlank] using hxs)]
    rfl
  rw [trimChars, hdrop, dropBlank_eq_self, List.reverse_reverse]
  intro c hc
  rw [List.head?_reverse, List.getLast?_append] at hc
  have hlast := List.getLast?_eq_some_getLast hys
  rw [hlast] at hc
  exact h c (hlast.trans hc)

theorem trimChars_dropBlank (cs : List Char) : trimChars (dropBlank cs) = trimChars cs := by
  rw [trimChars, dropBlank_eq_self fun _ => head?_dropBlank, trimChars]

theorem trimChars_cons_blank {c : Char} (hc : isBlank c = true) (cs : List Char) :
    trimChars (c :: cs) = trimChars cs := by
  have hdrop : dropBlank (c :: cs) = dropBlank cs := List.dropWhile_cons_of_pos hc
  rw [trimChars, hdrop, trimChars]

theorem trimChars_concat_blank {c : Char} (hc : isBlank c = true) (cs : List Char) :
    trimChars (cs ++ [c]) = trimChars cs := by
  have hdrop : dropBlank (cs ++ [c]) = if dropBlank cs = [] then [] else dropBlank cs ++ [c] := by
    rw [dropBlank, List.dropWhile_append]
    by_cases hcs : List.dropWhile isBlank cs = []
    · simp [dropBlank, hcs, hc]
    · simp [dropBlank, hcs]
  rw [trimChars, trimChars, hdrop]
  split
  · next hcs => rw [hcs]
  · rw [List.reverse_concat]
    exact congrArg List.reverse (List.dropWhile_cons_of_pos hc)

theorem mem_of_mem_trimChars {cs : List Char} {c : Char} (h : c ∈ trimChars cs) : c ∈ cs := by
  have hdrop : ∀ {ds : List Char}, c ∈ dropBlank ds → c ∈ ds :=
    fun h => (List.dropWhile_sublist _).subset h
  exact hdrop (List.mem_reverse.mp (hdrop (List.mem_reverse.mp h)))

/-! ### Pieces -/

theorem pieces_eq_singleton {p : Char → Bool} {cs : List Char} (h : ∀ c ∈ cs, p c = false) :
    pieces p cs = [cs] := by
  induction cs with
  | nil => rfl
  | cons c cs ih =>
    have hc : p c = false := h c List.mem_cons_self
    have hcs : pieces p cs = [cs] := ih fun d hd => h d (List.mem_cons_of_mem c hd)
    simp [pieces, hc, hcs]

/-- A character that does not separate goes to the end of the last piece. -/
theorem pieces_concat {p : Char → Bool} {c : Char} (hp : p c = false) (cs : List Char) :
    ∃ ws w, pieces p cs = ws ++ [w] ∧ pieces p (cs ++ [c]) = ws ++ [w ++ [c]] := by
  induction cs with
  | nil => exact ⟨[], [], rfl, by simp [pieces, hp]⟩
  | cons d cs ih =>
    obtain ⟨ws, w, h, h'⟩ := ih
    by_cases hd : p d = true
    · exact ⟨[] :: ws, w, by simp [pieces, hd, h], by simp [pieces, hd, h']⟩
    · cases ws with
      | nil => exact ⟨[], d :: w, by simp [pieces, hd, h], by simp [pieces, hd, h']⟩
      | cons v ws => exact ⟨(d :: v) :: ws, w, by simp [pieces, hd, h], by simp [pieces, hd, h']⟩

section Pieces
variable {p : Char → Bool} (hp : ∀ c, isBlank c = true → p c = false)
include hp

theorem map_trimChars_pieces_dropBlank (cs : List Char) :
    (pieces p (dropBlank cs)).map trimChars = (pieces p cs).map trimChars := by
  induction cs with
  | nil => rfl
  | cons c cs ih =>
    by_cases hc : isBlank c = true
    · obtain ⟨w, ws, h⟩ := List.exists_cons_of_ne_nil (pieces_ne_nil p cs)
      have hdrop : dropBlank (c :: cs) = dropBlank cs := List.dropWhile_cons_of_pos hc
      rw [hdrop, ih]
      simp [pieces, hp c hc, h, trimChars_cons_blank hc]
    · rw [dropBlank, List.dropWhile_cons_of_neg hc]

theorem map_trimChars_pieces_trimCharsEnd (cs : List Char) :
    (pieces p (trimCharsEnd cs)).map trimChars = (pieces p cs).map trimChars := by
  induction cs using List.reverseRecOn with
  | nil => rfl
  | append_singleton cs c ih =>
    by_cases hc : isBlank c = true
    · obtain ⟨ws, w, h, h'⟩ := pieces_concat (hp c hc) cs
      have hdrop : trimCharsEnd (cs ++ [c]) = trimCharsEnd cs := by
        rw [trimCharsEnd, List.reverse_concat, dropBlank, List.dropWhile_cons_of_pos hc]
        rfl
      rw [hdrop, ih, h, h']
      simp [trimChars_concat_blank hc]
    · rw [trimCharsEnd, List.reverse_concat, dropBlank, List.dropWhile_cons_of_neg hc,
        ← List.reverse_concat, List.reverse_reverse]

/-- **Where no white space separates, trimming a text trims its first and last pieces.** -/
theorem map_trimChars_pieces_trimChars (cs : List Char) :
    (pieces p (trimChars cs)).map trimChars = (pieces p cs).map trimChars :=
  (map_trimChars_pieces_trimCharsEnd hp (dropBlank cs)).trans (map_trimChars_pieces_dropBlank hp cs)

end Pieces

theorem words_append_cons {c : Char} (hc : isBlank c = true) (xs ys : List Char) :
    words (xs ++ c :: ys) = words xs ++ words ys := by
  rw [words, pieces_append_cons hc, List.filter_append]
  rfl

theorem words_eq_singleton {cs : List Char} (hne : cs ≠ []) (h : ∀ c ∈ cs, isBlank c = false) :
    words cs = [cs] := by
  rw [words, pieces_eq_singleton h]
  simp [hne]

end DevConsole.Text
