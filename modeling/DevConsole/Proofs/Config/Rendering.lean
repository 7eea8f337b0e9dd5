import DevConsole.Proofs.Config.Scan

/-!
# Renderings of texts

Texts can be written down in many ways such that the scanner finds exactly these texts again
(`tokens_rendering`): each one bare or between quotes, with white space and comments before, between
and after them. Two texts need white space between them, and so does a bare text before a comment,
since a bare token runs on over whatever begins a comment elsewhere (`tokens_bare_comment`). What
configs have for a value is one such way to write it.
-/

namespace DevConsole.Config

/-! ### Filler -/

/-- White space and comments, in any mix. -/
inductive Filler : List Char → Prop
  | nil : Filler []
  | blank {c : Char} {cs : List Char} : Text.isBlank c = true → Filler cs → Filler (c :: cs)
  | hash {body cs : List Char} : '\n' ∉ body → Filler cs → Filler ('#' :: (body ++ '\n' :: cs))
  | slashes {body cs : List Char} : '\n' ∉ body → Filler cs →
      Filler ('/' :: '/' :: (body ++ '\n' :: cs))
  | block {body cs : List Char} : ¬ ['*', '/'] <:+: body → Filler cs →
      Filler ('/' :: '*' :: (body ++ '*' :: '/' :: cs))

/-- Filler that begins with white space. -/
structure Gap (cs : List Char) : Prop where
  filler : Filler cs
  blank : ∃ b rest, cs = b :: rest ∧ Text.isBlank b = true

section Comments
variable {n : Nat} {rest : List Char}

/-- A comment is skipped up to its end. -/
theorem scan_comment {start : Nat} {body : List Char} (h : ¬ ['*', '/'] <:+: body) :
    scan (.comment start false) n (body ++ '*' :: '/' :: rest) =
      scan .gap (n + body.count '\n') rest := by
  obtain ⟨star, hscan⟩ := scan_unclosed n false h (by simp)
  rw [hscan, scan, if_neg (by decide), if_neg (by simp), scan, if_neg (by decide), if_pos ⟨rfl, rfl⟩]

/-- **Filler is skipped.** -/
theorem scan_filler {cs : List Char} (h : Filler cs) :
    ∀ n, scan .gap n (cs ++ rest) = scan .gap (n + cs.count '\n') rest := by
  induction h with
  | nil => exact fun n => rfl
  | @blank c cs hc _ ih =>
    intro n
    rw [List.cons_append, scan_blank n _ hc, ih, Nat.add_assoc, ← List.count_append]
    rfl
  | @hash body cs hbody _ ih =>
    intro n
    rw [List.cons_append, scan_hash, List.append_assoc, List.cons_append, scan_lineComment hbody, ih]
    simp [List.count_eq_zero_of_not_mem hbody, Nat.add_comm, Nat.add_left_comm]
  | @slashes body cs hbody _ ih =>
    intro n
    rw [List.cons_append, List.cons_append, scan_slashes, List.append_assoc, List.cons_append,
      scan_lineComment hbody, ih]
    simp [List.count_eq_zero_of_not_mem hbody, Nat.add_comm, Nat.add_left_comm]
  | @block body cs hbody _ ih =>
    intro n
    rw [List.cons_append, List.cons_append, scan_slashStar, List.append_assoc, List.cons_append,
      List.cons_append, scan_comment hbody, ih]
    simp [Nat.add_assoc]

/-- Filler holds no tokens. -/
theorem scan_filler_end {cs : List Char} (h : Filler cs) (n : Nat) : scan .gap n cs = .ok [] := by
  have hscan : scan .gap n (cs ++ []) = .ok [] := scan_filler h n
  rwa [List.append_nil] at hscan

end Comments

/-! ### Texts -/

/-- How a text is written. -/
inductive Form
  | bare
  | quoted

namespace Form

/-- The text as it is written. -/
def write : Form → String → List Char
  | bare, text => text.toList
  | quoted, text => enquote text.toList

/-- The text can be written so. Any text can be quoted. -/
def Allows : Form → String → Prop
  | bare, text => text.toList ≠ [] ∧ Unbroken text.toList ∧ beginsComment text.toList = false
  | quoted, _ => True

instance : (form : Form) → (text : String) → Decidable (form.Allows text)
  | bare, _ => inferInstanceAs (Decidable (_ ∧ _ ∧ _))
  | quoted, _ => isTrue trivial

/-- The characters can stand after the last text. -/
def EndsWith : Form → List Char → Prop
  | bare, cs => cs = [] ∨ Gap cs
  | quoted, cs => Filler cs

variable {form : Form} {text : String}

/-- A text before white space is one token. -/
theorem scan_write (h : form.Allows text) {b : Char} (hb : Text.isBlank b = true) (n : Nat)
    (rest : List Char) : scan .gap n (form.write text ++ b :: rest) =
      (scan .gap (n + text.toList.count '\n') (b :: rest)).map (⟨text, n⟩ :: ·) := by
  cases form with
  | bare =>
    obtain ⟨hne, hunbroken, hcomment⟩ := h
    have hcount : text.toList.count '\n' = 0 :=
      List.count_eq_zero.mpr fun hmem => ne_newline (hunbroken _ hmem).1 rfl
    rw [write, scan_bare hne hunbroken hcomment hb, hcount, String.ofList_toList]
    rfl
  | quoted => rw [write, scan_enquote, String.ofList_toList]

/-- The last text is one token. -/
theorem scan_write_end (h : form.Allows text) {cs : List Char} (hcs : form.EndsWith cs) (n : Nat) :
    scan .gap n (form.write text ++ cs) = .ok [⟨text, n⟩] := by
  have hgap (hgap : Gap cs) : scan .gap n (form.write text ++ cs) = .ok [⟨text, n⟩] := by
    obtain ⟨hfiller, b, rest, rfl, hb⟩ := hgap
    rw [scan_write h hb, scan_filler_end hfiller]
    rfl
  cases form with
  | bare =>
    rcases hcs with rfl | hcs
    · rw [write, List.append_nil, scan_bare_end h.1 h.2.1 h.2.2, String.ofList_toList]
    · exact hgap hcs
  | quoted =>
    rw [write, scan_enquote, scan_filler_end hcs, String.ofList_toList]
    rfl

end Form

/-- The characters from the first of some texts on. -/
inductive Row : List String → List Char → Prop
  | last {form : Form} {text : String} {cs : List Char} : form.Allows text → form.EndsWith cs →
      Row [text] (form.write text ++ cs)
  | cons {form : Form} {text : String} {gap cs : List Char} {texts : List String} :
      form.Allows text → Gap gap → Row texts cs → Row (text :: texts) (form.write text ++ (gap ++ cs))

/-- The characters are a way to write the texts down. -/
inductive Rendering : List String → List Char → Prop
  | nil {cs : List Char} : Filler cs → Rendering [] cs
  | row {lead cs : List Char} {texts : List String} : Filler lead → Row texts cs →
      Rendering texts (lead ++ cs)

/-- The tokens of a row are its texts. -/
theorem scan_row {texts : List String} {cs : List Char} (h : Row texts cs) :
    ∀ n, ∃ ts, scan .gap n cs = .ok ts ∧ ts.map (·.text) = texts := by
  induction h with
  | last hallows hends => exact fun n => ⟨_, Form.scan_write_end hallows hends n, rfl⟩
  | @cons form text gap cs texts hallows hgap _ ih =>
    intro n
    obtain ⟨hfiller, b, rest, rfl, hb⟩ := hgap
    obtain ⟨ts, hts, htexts⟩ :=
      ih (n + text.toList.count '\n' + (b :: rest).count '\n')
    refine ⟨⟨text, n⟩ :: ts, ?_, by rw [List.map_cons, htexts]⟩
    rw [List.cons_append, Form.scan_write hallows hb, ← List.cons_append, scan_filler hfiller, hts]
    rfl

/-- **Every rendering of texts is read back**, and configs have one for every value. -/
theorem tokens_rendering :
    (∀ {texts : List String} {cs : List Char}, Rendering texts cs →
      ∃ ts, tokens (String.ofList cs) = .ok ts ∧ ts.map (·.text) = texts) ∧
    ∀ value : String, ∃ form : Form, form.Allows value ∧ (quote value).toList = form.write value := by
  refine ⟨fun h => ?_, fun value => ?_⟩
  · rw [tokens, String.toList_ofList]
    cases h with
    | nil hfiller => exact ⟨[], scan_filler_end hfiller 1, rfl⟩
    | row hlead hrow =>
      rw [scan_filler hlead]
      exact scan_row hrow _
  · unfold quote
    by_cases hquotes : needsQuotes value.toList = true
    · exact ⟨.quoted, trivial, by rw [if_pos hquotes, String.toList_ofList]; rfl⟩
    · refine ⟨.bare, unbroken_of_needsQuotes (Bool.eq_false_iff.mpr hquotes), ?_⟩
      rw [if_neg hquotes]
      rfl

/-- Stars and slashes in comments and in a bare text, then a quote and a backslash between quotes. -/
theorem tokens_rendering_stars :
    Rendering ["a//*", "\"\\"] "/*/**/a//* /***///\n\"\\\"\\\\\"#\n".toList ∧
      ∃ ts, tokens (String.ofList "/*/**/a//* /***///\n\"\\\"\\\\\"#\n".toList) = .ok ts ∧
        ts.map (·.text) = ["a//*", "\"\\"] := by
  have hlead : Filler ('/' :: '*' :: (['/', '*'] ++ ['*', '/'])) := .block (by decide) .nil
  have hslashes : Filler ('/' :: '/' :: ([] ++ ['\n'])) := .slashes (by decide) .nil
  have hblock : Filler ('/' :: '*' :: (['*'] ++ '*' :: '/' :: _)) := .block (by decide) hslashes
  have hgap : Gap (' ' :: _) := ⟨.blank rfl hblock, _, _, rfl, rfl⟩
  have hend : Filler ('#' :: ([] ++ ['\n'])) := .hash (by decide) .nil
  have hrow : Row ["a//*", "\"\\"]
      (Form.bare.write "a//*" ++ (_ ++ (Form.quoted.write "\"\\" ++ _))) :=
    .cons (by decide) hgap (.last (by decide) hend)
  have h : Rendering ["a//*", "\"\\"] "/*/**/a//* /***///\n\"\\\"\\\\\"#\n".toList :=
    .row hlead hrow
  exact ⟨h, tokens_rendering.1 h⟩

/-- A bare text runs on over what would be a comment elsewhere. -/
theorem tokens_bare_comment : Form.bare.Allows "a" ∧ Filler ['#', 'b', '\n'] ∧
    tokens (String.ofList (Form.bare.write "a" ++ ['#', 'b', '\n'])) = .ok [⟨"a#b", 1⟩] :=
  ⟨by decide, (.hash (by decide) .nil : Filler ('#' :: (['b'] ++ ['\n']))), rfl⟩

end DevConsole.Config
