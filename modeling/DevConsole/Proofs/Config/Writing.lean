import DevConsole.Config.Assignments
import DevConsole.Proofs.Config.Scan

/-!
# Tokens of a written text

The text that keeps the persistent variables has their names and values as its tokens, in order, if
no name begins a comment (`tokens_text`). If all values are empty, then no token begins a comment,
whatever the names are (`harmless_text`).
-/

namespace DevConsole.Config

/-- The texts of the tokens that are to stand for the variables. -/
def entries (vs : List Variable) : List String := vs.flatMap fun v => [v.name, v.views.string]

theorem unbroken_of_isName {name : String} (h : isName name = true) :
    name.toList ≠ [] ∧ Unbroken name.toList := by
  unfold isName at h
  simp only [Bool.and_eq_true, Bool.not_eq_true', List.isEmpty_eq_false_iff, List.any_eq_false] at h
  obtain ⟨⟨hne, -⟩, hbarred⟩ := h
  refine ⟨hne, fun c hc => ?_⟩
  have hplain := hbarred c hc
  simp only [barredFromNames, Bool.or_eq_true, beq_iff_eq, not_or] at hplain
  exact ⟨Bool.eq_false_iff.mpr hplain.1.1.1, hplain.2⟩

theorem toList_text (s : Variables) : (text s).toList =
    header.toList ++ '\n' :: (listed s).flatMap fun v => (line v).toList := by
  rw [text, String.toList_append, String.toList_append, String.toList_join, List.flatMap_map,
    List.append_assoc]
  rfl

theorem toList_line (v : Variable) : (line v).toList =
    v.name.toList ++ ' ' :: ((quote v.views.string).toList ++ ['\n']) := by
  simp [line]

/-! ### Names that begin no comment -/

/-- The first line holds no tokens. -/
theorem scan_header (rest : List Char) :
    scan .gap 1 (header.toList ++ '\n' :: rest) = scan .gap 2 rest := by
  have hheader : header.toList = '/' :: '/' :: header.toList.drop 2 := by decide
  have hline : '\n' ∉ header.toList.drop 2 := by decide
  rw [hheader, List.cons_append, List.cons_append, scan_slashes]
  exact scan_lineComment hline rest

/-- **The line of a variable is two tokens**, its name and its value. -/
theorem scan_line {v : Variable} (hname : isName v.name = true)
    (hcomment : beginsComment v.name.toList = false) (n : Nat) (rest : List Char) :
    scan .gap n ((line v).toList ++ rest) =
      (scan .gap (n + v.views.string.toList.count '\n' + 1) rest).map
        (⟨v.name, n⟩ :: ⟨v.views.string, n⟩ :: ·) := by
  obtain ⟨hne, hunbroken⟩ := unbroken_of_isName hname
  have hspace (cs : List Char) : scan .gap n (' ' :: cs) = scan .gap n cs := by
    rw [scan, if_neg (by decide), if_pos (by decide)]
  rw [toList_line, List.append_assoc, List.cons_append, List.append_assoc, List.singleton_append,
    scan_bare hne hunbroken hcomment rfl, hspace, scan_quote, String.ofList_toList]
  cases scan .gap (n + v.views.string.toList.count '\n' + 1) rest <;> rfl

theorem scan_lines {vs : List Variable} (hname : ∀ v ∈ vs, isName v.name = true)
    (hcomment : ∀ v ∈ vs, beginsComment v.name.toList = false) (n : Nat) :
    ∃ ts, scan .gap n (vs.flatMap fun v => (line v).toList) = .ok ts ∧
      ts.map (·.text) = entries vs := by
  induction vs generalizing n with
  | nil => exact ⟨[], rfl, rfl⟩
  | cons v vs ih =>
    obtain ⟨hv, hvs⟩ := List.forall_mem_cons.mp hname
    obtain ⟨hv', hvs'⟩ := List.forall_mem_cons.mp hcomment
    obtain ⟨ts, hts, htexts⟩ := ih hvs hvs' (n + v.views.string.toList.count '\n' + 1)
    refine ⟨⟨v.name, n⟩ :: ⟨v.views.string, n⟩ :: ts, ?_, ?_⟩
    · rw [List.flatMap_cons, scan_line hv hv', hts]
      rfl
    · rw [List.map_cons, List.map_cons, htexts]
      rfl

/-- **The tokens of a written text are the names and values**, if no name begins a comment. -/
theorem tokens_text {s : Variables} (hname : ∀ v ∈ listed s, isName v.name = true)
    (hcomment : ∀ v ∈ listed s, beginsComment v.name.toList = false) :
    ∃ ts, tokens (text s) = .ok ts ∧ ts.map (·.text) = entries (listed s) := by
  rw [tokens, toList_text, scan_header]
  exact scan_lines hname hcomment 2

/-! ### Empty values -/

theorem paired_lines {vs : List Variable} (hname : ∀ v ∈ vs, isName v.name = true)
    (hempty : ∀ v ∈ vs, v.views.string = "") : Paired (vs.flatMap fun v => (line v).toList) := by
  induction vs with
  | nil => exact .nil
  | cons v vs ih =>
    obtain ⟨hv, hvs⟩ := List.forall_mem_cons.mp hname
    obtain ⟨hv', hvs'⟩ := List.forall_mem_cons.mp hempty
    have hquote : (quote v.views.string).toList = ['"', '"'] := by
      rw [hv']
      decide
    rw [List.flatMap_cons, toList_line, hquote, List.append_assoc]
    have hplain : '"' ∉ v.name.toList := fun hmem => ((unbroken_of_isName hv).2 _ hmem).2 rfl
    exact .append hplain (.cons (by decide) (.pair (.cons (by decide) (ih hvs hvs'))))

/-- **If all values are empty, no token of the written text begins a comment.** -/
theorem harmless_text {s : Variables} (hname : ∀ v ∈ listed s, isName v.name = true)
    (hempty : ∀ v ∈ listed s, v.views.string = "") : Harmless (tokens (text s)) := by
  have hpaired : Paired (header.toList ++ '\n' :: (listed s).flatMap fun v => (line v).toList) :=
    .append (by decide) (.cons (by decide) (paired_lines hname hempty))
  rw [tokens, toList_text]
  exact scan_paired hpaired .gap trivial 1

end DevConsole.Config
