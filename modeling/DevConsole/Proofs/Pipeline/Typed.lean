import DevConsole.Proofs.Pipeline.Filter
import DevConsole.Proofs.Text.Trimmed

/-!
# Typed pipelines

The text of a pipeline, a producer and filters between bars, is one statement, and its stages are
the producer and the filters (`statements_pipeline`, `stages_pipeline`). The stage of a filter has
the words that the filter was typed with (`ofText_text`).
-/

namespace DevConsole

/-- The text is one word wherever it stands in a line. -/
structure IsWord (w : String) : Prop where
  ne_empty : w ≠ ""
  bare : ∀ c ∈ w.toList, endsWord c = false

/-- The text is a stage of its own: it is not blank, and no separator is in it. -/
structure IsStage (p : String) : Prop where
  ne_blank : Text.trim p ≠ ""
  bare : ∀ c ∈ p.toList, (c == statementSeparator || c == stageSeparator) = false

theorem isWord_of_any {w : String} (hne : w ≠ "") (h : w.toList.any endsWord = false) : IsWord w :=
  ⟨hne, fun c hc => Bool.eq_false_iff.mpr (List.any_eq_false.mp h c hc)⟩

theorem endsWord_eq_false_iff {c : Char} : endsWord c = false ↔ Text.isBlank c = false ∧
    (c == statementSeparator) = false ∧ (c == stageSeparator) = false := by
  unfold endsWord
  rw [Bool.or_eq_false_iff, Bool.or_eq_false_iff, and_assoc]

theorem endsWord_of_isDigit {c : Char} (hc : Number.isDigit c = true) : endsWord c = false := by
  have hdigits : ∀ n : Fin 58, Number.isDigit (Char.ofNat n) = true →
      endsWord (Char.ofNat n) = false := by decide
  have hlt : c.toNat < 58 := by
    have hle : c ≤ '9' := of_decide_eq_true ((Bool.and_eq_true _ _).mp hc).2
    exact Nat.lt_succ_of_le (UInt32.le_iff_toNat_le.mp (Char.le_def.mp hle))
  have h := hdigits ⟨c.toNat, hlt⟩
  rw [Char.ofNat_toNat] at h
  exact h hc

/-! ### Rows of words -/

/-- The text of a row of words. -/
abbrev row (ws : List String) : String := Text.join " " ws

theorem toList_row_cons_cons (w v : String) (ws : List String) :
    (row (w :: v :: ws)).toList = w.toList ++ ' ' :: (row (v :: ws)).toList := by
  simp [row, Text.join]

theorem IsWord.words_eq {w : String} (h : IsWord w) : Text.words w.toList = [w.toList] :=
  Text.words_eq_singleton (mt String.toList_eq_nil_iff.mp h.ne_empty)
    fun c hc => (endsWord_eq_false_iff.mp (h.bare c hc)).1

theorem words_row : ∀ {w : String} {ws : List String}, (∀ v ∈ w :: ws, IsWord v) →
    Text.words (row (w :: ws)).toList = (w :: ws).map String.toList
  | w, [], h => (h w List.mem_cons_self).words_eq
  | w, v :: ws, h => by
    rw [toList_row_cons_cons, Text.words_append_cons (by decide), (h w List.mem_cons_self).words_eq,
      words_row fun u hu => h u (List.mem_cons_of_mem w hu)]
    rfl

theorem row_ne_nil {w : String} {ws : List String} (h : ∀ v ∈ w :: ws, IsWord v) :
    (row (w :: ws)).toList ≠ [] := by
  rw [row, Text.toList_join_cons]
  simp [(h w List.mem_cons_self).ne_empty]

theorem bareEnds_row {w : String} {ws : List String} (h : ∀ v ∈ w :: ws, IsWord v) :
    Text.BareEnds (row (w :: ws)).toList where
  head c hc := by
    obtain ⟨hne, hbare⟩ := h w List.mem_cons_self
    obtain ⟨d, ds, hw⟩ := List.exists_cons_of_ne_nil (mt String.toList_eq_nil_iff.mp hne)
    rw [row, Text.toList_join_cons, hw] at hc
    obtain rfl : d = c := Option.some.inj hc
    exact (endsWord_eq_false_iff.mp (hbare d (hw ▸ List.mem_cons_self))).1
  last := by
    induction ws generalizing w with
    | nil =>
      intro c hc
      exact (endsWord_eq_false_iff.mp ((h w List.mem_cons_self).bare c (List.mem_of_getLast? hc))).1
    | cons v ws ih =>
      intro c hc
      refine ih (fun u hu => h u (List.mem_cons_of_mem w hu)) c ?_
      have hne := row_ne_nil fun u hu => h u (List.mem_cons_of_mem w hu)
      rw [toList_row_cons_cons, List.getLast?_append_of_ne_nil _ (by simp),
        List.getLast?_cons_of_ne_nil hne] at hc
      exact hc

theorem mem_row {w : String} {ws : List String} (h : ∀ v ∈ w :: ws, IsWord v) {c : Char}
    (hc : c ∈ (row (w :: ws)).toList) : c = ' ' ∨ endsWord c = false := by
  rw [row, Text.toList_join_cons] at hc
  rcases List.mem_append.mp hc with hc | hc
  · exact .inr ((h w List.mem_cons_self).bare c hc)
  · obtain ⟨v, hv, hc⟩ := List.mem_flatMap.mp hc
    rcases List.mem_append.mp hc with hc | hc
    · exact .inl (by simpa using hc)
    · exact .inr ((h v (List.mem_cons_of_mem w hv)).bare c hc)

/-- A row of words is a stage with these words, unless it starts with the marker. -/
theorem ofText_row {w : String} {ws : List String} (h : ∀ v ∈ w :: ws, IsWord v)
    (hmarker : w.toList.head? ≠ some silentMarker) :
    Stage.ofText (row (w :: ws)) = { text := row (w :: ws), silent := false, words := w :: ws } := by
  have htrim : Text.trimChars (row (w :: ws)).toList = (row (w :: ws)).toList :=
    (bareEnds_row h).trimChars_eq
  have hwords : (Text.words (row (w :: ws)).toList).map String.ofList = w :: ws := by
    rw [words_row h]
    simp
  have hhead : ∀ rest, (row (w :: ws)).toList ≠ '@' :: rest := by
    intro rest heq
    rw [row, Text.toList_join_cons] at heq
    have hw := congrArg List.head? heq
    rw [List.head?_append_of_ne_nil _ (by simpa using (h w List.mem_cons_self).ne_empty)] at hw
    exact hmarker hw
  unfold Stage.ofText
  rw [htrim]
  dsimp only
  split
  · next heq => exact absurd heq (hhead _)
  · rw [hwords, String.ofList_toList]

section Row
variable {w : String} {ws : List String} (h : ∀ v ∈ w :: ws, IsWord v)
include h

theorem notMem_row {p : Char → Bool} (hspace : p ' ' = false)
    (hp : ∀ c, endsWord c = false → p c = false) : ∀ c ∈ (row (w :: ws)).toList, p c = false := by
  intro c hc
  rcases mem_row h hc with rfl | hc
  · exact hspace
  · exact hp c hc

/-- A row of words is one statement. -/
theorem statements_row : statements (row (w :: ws)) = [row (w :: ws)] := by
  have hbare := notMem_row h (p := (· == statementSeparator)) (by decide)
    fun c hc => (endsWord_eq_false_iff.mp hc).2.1
  rw [statements, Text.pieces_eq_singleton hbare, List.map_singleton, String.ofList_toList]

/-- A row of words is one stage. -/
theorem stages_row : stages (row (w :: ws)) = [row (w :: ws)] := by
  have hbare := notMem_row h (p := (· == stageSeparator)) (by decide)
    fun c hc => (endsWord_eq_false_iff.mp hc).2.2
  rw [stages, Text.pieces_eq_singleton hbare, List.map_singleton, (bareEnds_row h).trimChars_eq,
    List.filterMap_cons_some (by rw [if_neg (row_ne_nil h)]), String.ofList_toList]
  rfl

end Row

namespace Filter

/-- The command that the filter is. -/
def command : Filter → String
  | grep _ => "grep"
  | sort | sortBy _ => "sort"

/-- The words after the command. -/
def args : Filter → List String
  | grep part => [part]
  | sort => []
  | sortBy order => [Number.integerText order]

/-- The text of the filter. -/
def text (f : Filter) : String := Text.join " " (f.command :: f.args)

theorem isWord_command (f : Filter) : IsWord f.command := by
  have hgrep : IsWord "grep" := isWord_of_any (by decide) (by decide)
  have hsort : IsWord "sort" := isWord_of_any (by decide) (by decide)
  cases f with
  | grep part => exact hgrep
  | sort | sortBy order => exact hsort

theorem isWord_integerText (i : Int32) : IsWord (Number.integerText i) where
  ne_empty h := by
    have hread := Number.integer?_integerText i
    rw [h] at hread
    simp [Number.integer?, Number.splitSign] at hread
  bare c hc := by
    rcases Number.mem_integerText hc with rfl | hdigit
    · decide
    · exact endsWord_of_isDigit hdigit

/-- The filter can be typed. -/
def IsTyped : Filter → Prop
  | grep part => IsWord part
  | _ => True

theorem isWord_of_mem {f : Filter} (hf : f.IsTyped) : ∀ w ∈ f.command :: f.args, IsWord w := by
  intro w hw
  rcases List.mem_cons.mp hw with rfl | hw
  · exact f.isWord_command
  · cases f with
    | grep part =>
      obtain rfl := List.mem_singleton.mp hw
      exact hf
    | sort => cases hw
    | sortBy order =>
      obtain rfl := List.mem_singleton.mp hw
      exact isWord_integerText order

/-- **The stage of a filter has the words the filter was typed with.** -/
theorem ofText_text {f : Filter} (hf : f.IsTyped) :
    Stage.ofText f.text = { text := f.text, silent := false, words := f.command :: f.args } := by
  refine ofText_row (isWord_of_mem hf) ?_
  have hgrep : "grep".toList.head? ≠ some silentMarker := by decide
  have hsort : "sort".toList.head? ≠ some silentMarker := by decide
  cases f with
  | grep part => exact hgrep
  | sort | sortBy order => exact hsort

end Filter

/-! ### Pipelines -/

/-- The text of a producer with filters behind it. -/
def pipeline (p : String) (fs : List Filter) : String := Text.join " | " (p :: fs.map (·.text))

/-- The characters behind the producer. -/
def tailChars (fs : List Filter) : List Char :=
  fs.flatMap fun f => ' ' :: stageSeparator :: ' ' :: f.text.toList

theorem toList_pipeline (p : String) (fs : List Filter) :
    (pipeline p fs).toList = p.toList ++ tailChars fs := by
  rw [pipeline, Text.toList_join_cons, List.flatMap_map]
  rfl

theorem Filter.not_separator {f : Filter} (hf : f.IsTyped) {c : Char} (hc : c ∈ f.text.toList) :
    (c == statementSeparator || c == stageSeparator) = false := by
  rcases mem_row (Filter.isWord_of_mem hf) hc with rfl | hc
  · decide
  · rw [Bool.or_eq_false_iff]
    exact (endsWord_eq_false_iff.mp hc).2

theorem Filter.bareEnds_text {f : Filter} (hf : f.IsTyped) : Text.BareEnds f.text.toList :=
  bareEnds_row (Filter.isWord_of_mem hf)

theorem Filter.text_ne_nil {f : Filter} (hf : f.IsTyped) : f.text.toList ≠ [] :=
  row_ne_nil (Filter.isWord_of_mem hf)

theorem getLast?_tailChars {fs : List Filter} (hfs : ∀ f ∈ fs, f.IsTyped) {c : Char}
    (hc : (tailChars fs).getLast? = some c) : Text.isBlank c = false := by
  induction fs with
  | nil => cases hc
  | cons f fs ih =>
    have hf := hfs f List.mem_cons_self
    have hcons : tailChars (f :: fs) =
        ([' ', stageSeparator, ' '] ++ f.text.toList) ++ tailChars fs := rfl
    rw [hcons, List.getLast?_append] at hc
    cases hrest : (tailChars fs).getLast? with
    | some d =>
      rw [hrest] at hc
      exact ih (fun g hg => hfs g (List.mem_cons_of_mem f hg)) (hrest.trans hc)
    | none =>
      rw [hrest, Option.none_or, List.getLast?_append_of_ne_nil _ (Filter.text_ne_nil hf)] at hc
      exact (Filter.bareEnds_text hf).last c hc

theorem tailChars_ne_nil {fs : List Filter} (hne : fs ≠ []) : tailChars fs ≠ [] := by
  cases fs with
  | nil => exact absurd rfl hne
  | cons f fs => simp [tailChars]

theorem IsStage.dropBlank_ne_nil {p : String} (hp : IsStage p) : Text.dropBlank p.toList ≠ [] := by
  intro h
  refine hp.ne_blank ?_
  rw [Text.trim, ← Text.trimChars_dropBlank, h]
  rfl

theorem trimChars_pipeline {p : String} {fs : List Filter} (hp : IsStage p) (hne : fs ≠ [])
    (hfs : ∀ f ∈ fs, f.IsTyped) :
    Text.trimChars (pipeline p fs).toList = Text.dropBlank p.toList ++ tailChars fs := by
  rw [toList_pipeline]
  exact Text.trimChars_append hp.dropBlank_ne_nil (tailChars_ne_nil hne)
    fun c => getLast?_tailChars hfs

/-- **A pipeline is one statement.** -/
theorem statements_pipeline {p : String} {fs : List Filter} (hp : IsStage p)
    (hfs : ∀ f ∈ fs, f.IsTyped) :
    statements (Text.trim (pipeline p fs)) = [Text.trim (pipeline p fs)] := by
  have hbare : ∀ c ∈ (pipeline p fs).toList, (c == statementSeparator) = false := by
    intro c hc
    rw [toList_pipeline] at hc
    rcases List.mem_append.mp hc with hc | hc
    · exact (Bool.or_eq_false_iff.mp (hp.bare c hc)).1
    · obtain ⟨f, hf, hc⟩ := List.mem_flatMap.mp hc
      rcases List.mem_append (s := [' ', stageSeparator, ' ']).mp hc with hc | hc
      · have hbar : [' ', stageSeparator, ' '].any (· == statementSeparator) = false := by decide
        exact Bool.eq_false_iff.mpr (List.any_eq_false.mp hbar c hc)
      · exact (Bool.or_eq_false_iff.mp (Filter.not_separator (hfs f hf) hc)).1
  rw [statements, Text.trim, String.toList_ofList,
    Text.pieces_eq_singleton fun c hc => hbare c (Text.mem_of_mem_trimChars hc)]
  rfl

theorem pieces_tailChars {fs : List Filter} (hfs : ∀ f ∈ fs, f.IsTyped) {cs : List Char}
    (hcs : ∀ c ∈ cs, (c == stageSeparator) = false) :
    (Text.pieces (· == stageSeparator) (cs ++ tailChars fs)).map Text.trimChars =
      Text.trimChars cs :: fs.map (·.text.toList) := by
  induction fs generalizing cs with
  | nil =>
    rw [tailChars, List.flatMap_nil, List.append_nil, Text.pieces_eq_singleton hcs]
    rfl
  | cons f fs ih =>
    have hf := hfs f List.mem_cons_self
    have hcons : cs ++ tailChars (f :: fs) =
        (cs ++ [' ']) ++ stageSeparator :: ((' ' :: f.text.toList) ++ tailChars fs) := by
      simp [tailChars]
    have hblank : ∀ c ∈ cs ++ [' '], (c == stageSeparator) = false := by
      intro c hc
      rcases List.mem_append.mp hc with hc | hc
      · exact hcs c hc
      · rw [List.mem_singleton.mp hc]
        decide
    have hspaced : ∀ c ∈ ' ' :: f.text.toList, (c == stageSeparator) = false := by
      intro c hc
      rcases List.mem_cons.mp hc with rfl | hc
      · decide
      · exact (Bool.or_eq_false_iff.mp (Filter.not_separator hf hc)).2
    have hrest := ih (fun g hg => hfs g (List.mem_cons_of_mem f hg)) hspaced
    rw [hcons, Text.pieces_append_cons (by decide), List.map_append, Text.pieces_eq_singleton hblank,
      hrest, List.map_singleton, Text.trimChars_concat_blank (by decide),
      Text.trimChars_cons_blank (by decide), (Filter.bareEnds_text hf).trimChars_eq]
    rfl

/-- **The stages of a pipeline are the producer and the filters.** -/
theorem stages_pipeline {p : String} {fs : List Filter} (hp : IsStage p) (hne : fs ≠ [])
    (hfs : ∀ f ∈ fs, f.IsTyped) :
    stages (Text.trim (pipeline p fs)) = Text.trim p :: fs.map (·.text) := by
  have hbare : ∀ c ∈ Text.dropBlank p.toList, (c == stageSeparator) = false := fun c hc =>
    (Bool.or_eq_false_iff.mp (hp.bare c ((List.dropWhile_sublist _).subset hc))).2
  have hkeep : ∀ gs : List Filter, (∀ f ∈ gs, f.IsTyped) →
      (gs.map (·.text.toList)).filterMap
        (fun cs => if cs = [] then none else some (String.ofList cs)) = gs.map (·.text) := by
    intro gs hgs
    induction gs with
    | nil => rfl
    | cons g gs ih =>
      have hg := Filter.text_ne_nil (hgs g List.mem_cons_self)
      rw [List.map_cons,
        List.filterMap_cons_some (b := g.text) (by rw [if_neg hg, String.ofList_toList]),
        ih fun f hf => hgs f (List.mem_cons_of_mem g hf)]
      rfl
  have hp' : Text.trimChars p.toList ≠ [] := fun h => hp.ne_blank (by rw [Text.trim, h])
  rw [stages, Text.trim, String.toList_ofList, trimChars_pipeline hp hne hfs,
    pieces_tailChars hfs hbare, Text.trimChars_dropBlank,
    List.filterMap_cons_some (b := Text.trim p) (by rw [if_neg hp']; rfl), hkeep fs hfs]

end DevConsole
