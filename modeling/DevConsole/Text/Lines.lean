/-!
# Lines of a text

A line ends at a line feed, and a carriage return just before the line feed belongs to the ending.
What follows the last line feed is a line too, unless it is empty.
-/

namespace DevConsole.Text

/-- Drops one carriage return from the end. -/
def dropReturn (cs : List Char) : List Char :=
  if cs.getLast? = some '\r' then cs.dropLast else cs

/-- The lines of a text; `line` holds the current line so far, last character first. -/
def linesFrom (line : List Char) : List Char → List (List Char)
  | [] => if line = [] then [] else [line.reverse]
  | c :: cs =>
    if c = '\n' then dropReturn line.reverse :: linesFrom [] cs
    else linesFrom (c :: line) cs

/-- The lines of a text. -/
def lines (s : String) : List String := (linesFrom [] s.toList).map String.ofList

theorem mem_of_mem_dropReturn {cs : List Char} {c : Char} (h : c ∈ dropReturn cs) : c ∈ cs := by
  unfold dropReturn at h
  split at h
  · exact List.dropLast_subset cs h
  · exact h

theorem newline_notMem_of_mem_linesFrom : ∀ {cs line l : List Char}, '\n' ∉ line →
    l ∈ linesFrom line cs → '\n' ∉ l
  | [], line, l, hline, h => by
    unfold linesFrom at h
    split at h
    · cases h
    · rw [List.mem_singleton.mp h, List.mem_reverse]
      exact hline
  | c :: cs, line, l, hline, h => by
    unfold linesFrom at h
    split at h
    · rcases List.mem_cons.mp h with rfl | h
      · exact fun hmem => hline (List.mem_reverse.mp (mem_of_mem_dropReturn hmem))
      · exact newline_notMem_of_mem_linesFrom List.not_mem_nil h
    · next hc =>
      refine newline_notMem_of_mem_linesFrom ?_ h
      rw [List.mem_cons, not_or]
      exact ⟨Ne.symm hc, hline⟩

/-- A line has no line feed in it. -/
theorem newline_notMem_of_mem_lines {s l : String} (h : l ∈ lines s) : '\n' ∉ l.toList := by
  obtain ⟨cs, hcs, rfl⟩ := List.mem_map.mp h
  rw [String.toList_ofList]
  exact newline_notMem_of_mem_linesFrom List.not_mem_nil hcs

theorem linesFrom_of_newline_notMem : ∀ {cs : List Char} (line : List Char), '\n' ∉ cs →
    linesFrom line cs = if line.reverse ++ cs = [] then [] else [line.reverse ++ cs]
  | [], line, _ => by simp [linesFrom]
  | c :: cs, line, h => by
    rw [List.mem_cons, not_or] at h
    rw [linesFrom, if_neg (Ne.symm h.1), linesFrom_of_newline_notMem (c :: line) h.2]
    simp

/-- A text without a line feed is one line, unless it is empty. -/
theorem lines_of_newline_notMem {s : String} (h : '\n' ∉ s.toList) :
    lines s = if s = "" then [] else [s] := by
  unfold lines
  rw [linesFrom_of_newline_notMem [] h, List.reverse_nil, List.nil_append]
  by_cases hs : s = ""
  · rw [if_pos hs, if_pos (String.toList_eq_nil_iff.mpr hs), List.map_nil]
  · rw [if_neg hs, if_neg (fun h => hs (String.toList_eq_nil_iff.mp h)), List.map_singleton,
      String.ofList_toList]

end DevConsole.Text
