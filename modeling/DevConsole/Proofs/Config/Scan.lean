import DevConsole.Config.Quoted
import DevConsole.Config.Token
import DevConsole.Proofs.Text.Folded
import Mathlib.Tactic.SplitIfs

/-!
# Scanning written texts

Reading back what was written: a bare text before white space is one token unless it begins a
comment (`scan_bare`), and a written value is one token in any case (`scan_quote`). In a text whose
quotes come in pairs with nothing between them, no token begins a comment (`scan_paired`).
-/

namespace DevConsole.Config

/-- The characters begin with what starts a comment between tokens. -/
def beginsComment : List Char → Bool
  | [] => false
  | c :: cs => c == '#' || (c == '/' && (cs.head? == some '/' || cs.head? == some '*'))

/-- The characters can be in a bare token. -/
def Unbroken (cs : List Char) : Prop := ∀ c ∈ cs, Text.isBlank c = false ∧ c ≠ '"'

instance (cs : List Char) : Decidable (Unbroken cs) := List.decidableBAll _ cs

theorem beginsComment_cons (c : Char) (cs : List Char) : beginsComment (c :: cs) = true ↔
    c = '#' ∨ (c = '/' ∧ cs.head? = some '/') ∨ (c = '/' ∧ cs.head? = some '*') := by
  simp [beginsComment, and_or_left]

theorem beginsComment_append {cs : List Char} (h : beginsComment cs = true) (rest : List Char) :
    beginsComment (cs ++ rest) = true := by
  cases cs with
  | nil => cases h
  | cons c cs =>
    rw [List.cons_append, beginsComment_cons]
    have hhead : ∀ d, cs.head? = some d → (cs ++ rest).head? = some d := fun d hd => by
      rw [List.head?_append, hd, Option.some_or]
    rcases (beginsComment_cons c cs).mp h with hc | ⟨hc, hd⟩ | ⟨hc, hd⟩
    · exact .inl hc
    · exact .inr (.inl ⟨hc, hhead _ hd⟩)
    · exact .inr (.inr ⟨hc, hhead _ hd⟩)

/-- Letter case plays no role for what begins a comment. -/
theorem beginsComment_fold (cs : List Char) :
    beginsComment (Text.foldChars cs) = beginsComment cs := by
  have hhash (c : Char) : c.toLower = '#' ↔ c = '#' := Text.toLower_eq_iff (by decide)
  have hslash (c : Char) : c.toLower = '/' ↔ c = '/' := Text.toLower_eq_iff (by decide)
  have hstar (c : Char) : c.toLower = '*' ↔ c = '*' := Text.toLower_eq_iff (by decide)
  cases cs with
  | nil => rfl
  | cons c cs =>
    have hcons : Text.foldChars (c :: cs) = c.toLower :: Text.foldChars cs := rfl
    rw [Bool.eq_iff_iff, hcons, beginsComment_cons, beginsComment_cons]
    cases cs with
    | nil => simp [Text.foldChars, hhash]
    | cons d cs => simp [Text.foldChars, hhash, hslash, hstar]

/-! ### Comments -/

section Comments
variable {n start : Nat}

/-- A comment that ends with the line is skipped up to there. -/
theorem scan_restOfLine {cs rest : List Char} (h : '\n' ∉ cs)
    (hrest : ∀ c, rest.head? = some c → c = '\n') :
    scan .lineComment n (cs ++ rest) = scan .gap n rest := by
  induction cs with
  | nil =>
    cases rest with
    | nil => rfl
    | cons c rest => rw [hrest c rfl, List.nil_append, scan, scan, if_pos rfl, if_pos rfl]
  | cons c cs ih =>
    obtain ⟨hc, hcs⟩ := not_or.mp (mt List.mem_cons.mpr h)
    rw [List.cons_append, scan, if_neg fun heq => hc heq.symm, ih hcs]

/-- A comment that ends with the line is skipped. -/
theorem scan_lineComment {cs : List Char} (h : '\n' ∉ cs) (rest : List Char) :
    scan .lineComment n (cs ++ '\n' :: rest) = scan .gap (n + 1) rest := by
  have hend : ∀ c, ('\n' :: rest).head? = some c → c = '\n' := fun c hc => (Option.some.inj hc).symm
  rw [scan_restOfLine h hend]
  exact scan_blank n rest rfl

/-- In a comment that nothing closes the scan goes on, though the last character may be a star. -/
theorem scan_unclosed : ∀ {body : List Char} (n : Nat) (star : Bool), ¬ ['*', '/'] <:+: body →
    (star = true → body.head? ≠ some '/') → ∃ star', ∀ rest,
      scan (.comment start star) n (body ++ rest) =
        scan (.comment start star') (n + body.count '\n') rest
  | [], n, star, _, _ => ⟨star, fun rest => rfl⟩
  | c :: body, n, star, hclosed, hstar => by
    have hbody : ¬ ['*', '/'] <:+: body := mt List.infix_cons hclosed
    by_cases hline : c = '\n'
    · obtain ⟨star', hscan⟩ := scan_unclosed (n + 1) false hbody (by simp)
      refine ⟨star', fun rest => ?_⟩
      rw [List.cons_append, scan, if_pos hline, hscan, hline, List.count_cons_self, Nat.add_assoc,
        Nat.add_comm 1]
    · have hopen : ¬ (c = '/' ∧ star = true) := fun h => hstar h.2 (congrArg some h.1)
      -- a star in the comment is not followed by what would close it
      have hnext : (c == '*') = true → body.head? ≠ some '/' := by
        intro hc hslash
        obtain ⟨tail, rfl⟩ := List.head?_eq_some_iff.mp hslash
        rw [eq_of_beq hc] at hclosed
        exact hclosed ⟨[], tail, rfl⟩
      obtain ⟨star', hscan⟩ := scan_unclosed n _ hbody hnext
      refine ⟨star', fun rest => ?_⟩
      rw [List.cons_append, scan, if_neg hline, if_neg hopen, hscan, List.count_cons_of_ne hline]

end Comments

/-! ### Bare texts -/

section Bare
variable {n : Nat} {cs rest : List Char}

theorem ne_newline {c : Char} (h : Text.isBlank c = false) : c ≠ '\n' := by
  rintro rfl
  cases h

theorem scan_unbroken (h : Unbroken cs) (text : List Char) :
    scan (.bare text) n (cs ++ rest) = scan (.bare (cs.reverse ++ text)) n rest := by
  induction cs generalizing text with
  | nil => rfl
  | cons c cs ih =>
    obtain ⟨⟨hblank, hquote⟩, hcs⟩ := List.forall_mem_cons.mp h
    rw [List.cons_append, scan, if_neg (ne_newline hblank), if_neg (by simp [hblank]),
      if_neg hquote, ih hcs, List.reverse_cons, List.append_assoc]
    rfl

theorem scan_bare_blank {b : Char} (hb : Text.isBlank b = true) (text : List Char) :
    scan (.bare text) n (b :: rest) = (scan .gap n (b :: rest)).map (.ofReverse text n :: ·) := by
  rw [scan, scan]
  by_cases hline : b = '\n'
  · rw [if_pos hline, if_pos hline]
  · rw [if_neg hline, if_neg hline, if_pos hb, if_pos hb]

/-- A text that can be in a bare token opens one, unless a comment begins there. -/
theorem scan_bare_open (hne : cs ≠ []) (h : Unbroken cs)
    (hcomment : beginsComment (cs ++ rest) = false) :
    scan .gap n (cs ++ rest) = scan (.bare cs.reverse) n rest := by
  obtain ⟨c, cs, rfl⟩ := List.exists_cons_of_ne_nil hne
  obtain ⟨⟨hblank, hquote⟩, hcs⟩ := List.forall_mem_cons.mp h
  obtain ⟨hhash, hpair⟩ := not_or.mp (mt (beginsComment_cons c (cs ++ rest)).mpr
    (Bool.eq_false_iff.mp hcomment))
  obtain ⟨hslash, hstar⟩ := not_or.mp hpair
  rw [List.cons_append, scan, if_neg (ne_newline hblank), if_neg (by simp [hblank]), if_neg hhash,
    if_neg hslash, if_neg hstar, if_neg hquote, scan_unbroken hcs, List.reverse_cons]

/-- White space after a text begins no comment with it. -/
theorem beginsComment_append_blank {b : Char} (hne : cs ≠ []) (hcomment : beginsComment cs = false)
    (hb : Text.isBlank b = true) : beginsComment (cs ++ b :: rest) = false := by
  obtain ⟨c, cs, rfl⟩ := List.exists_cons_of_ne_nil hne
  cases cs with
  | cons d cs => exact hcomment
  | nil =>
    refine Bool.eq_false_iff.mpr fun hbegins => ?_
    have hplain (d : Char) (hd : Text.isBlank d = false) : (b :: rest).head? ≠ some d := by
      rintro hfirst
      obtain rfl : b = d := Option.some.inj hfirst
      rw [hb] at hd
      cases hd
    rcases (beginsComment_cons c (b :: rest)).mp hbegins with hc | hc | hc
    · rw [beginsComment, hc] at hcomment
      cases hcomment
    · exact hplain '/' rfl hc.2
    · exact hplain '*' rfl hc.2

/-- **A bare text before white space is one token**, unless it begins a comment. -/
theorem scan_bare {b : Char} (hne : cs ≠ []) (h : Unbroken cs) (hcomment : beginsComment cs = false)
    (hb : Text.isBlank b = true) :
    scan .gap n (cs ++ b :: rest) =
      (scan .gap n (b :: rest)).map (⟨String.ofList cs, n⟩ :: ·) := by
  rw [scan_bare_open hne h (beginsComment_append_blank hne hcomment hb), scan_bare_blank hb,
    Token.ofReverse, List.reverse_reverse]

/-- A bare text at the end is one token, unless it begins a comment. -/
theorem scan_bare_end (hne : cs ≠ []) (h : Unbroken cs) (hcomment : beginsComment cs = false) :
    scan .gap n cs = .ok [⟨String.ofList cs, n⟩] := by
  have hopen : scan .gap n (cs ++ []) = scan (.bare cs.reverse) n [] :=
    scan_bare_open hne h (by rwa [List.append_nil])
  rw [List.append_nil] at hopen
  rw [hopen, scan, Token.ofReverse, List.reverse_reverse]

end Bare

/-! ### Quoted texts and values -/

/-- The characters stand in a quoted token, with `next` behind them, and are read as the text. -/
inductive Inside (next : List Char) : List Char → List Char → Prop
  | nil : Inside next [] []
  | escaped {c : Char} {cs text : List Char} : c = '"' ∨ c = '\\' → Inside next cs text →
      Inside next ('\\' :: c :: cs) (c :: text)
  | plain {c : Char} {cs text : List Char} : c ≠ '"' →
      ¬ (c = '\\' ∧ ((cs ++ next).head? = some '"' ∨ (cs ++ next).head? = some '\\')) →
      Inside next cs text → Inside next (c :: cs) (c :: text)

section Quoted
variable {n start : Nat}

/-- A quoted token has the newlines of its text. -/
theorem Inside.count_newline {next cs text : List Char} (h : Inside next cs text) :
    cs.count '\n' = text.count '\n' := by
  induction h with
  | nil => rfl
  | escaped _ _ ih => rw [List.count_cons_of_ne (by decide), List.count_cons, List.count_cons, ih]
  | plain _ _ _ ih => rw [List.count_cons, List.count_cons, ih]

/-- What stands in a quoted token is read up to what comes behind it. -/
theorem scan_inside {next cs text rest : List Char} (h : Inside next cs text)
    (hnext : next.head? = rest.head?) (read : List Char) :
    scan (.quoted start read) n (cs ++ rest) =
      scan (.quoted start (text.reverse ++ read)) (n + text.count '\n') rest := by
  induction h generalizing n read with
  | nil => rfl
  | @escaped c cs text hc _ ih =>
    have hline : c ≠ '\n' := by rintro rfl; simp at hc
    rw [List.cons_append, List.cons_append, scan, if_neg (by decide),
      if_pos ⟨rfl, by simpa using hc⟩, scan, ih, List.count_cons_of_ne hline, List.reverse_cons,
      List.append_assoc, List.singleton_append]
  | @plain c cs text hquote hescape _ ih =>
    have hhead : (cs ++ rest).head? = (cs ++ next).head? := by
      rw [List.head?_append, List.head?_append, hnext]
    rw [List.cons_append, scan, if_neg hquote, if_neg (by rwa [hhead]), List.reverse_cons,
      List.append_assoc, List.singleton_append]
    by_cases hline : c = '\n'
    · rw [if_pos hline, ih, hline, List.count_cons_self, Nat.add_assoc, Nat.add_comm 1]
    · rw [if_neg hline, ih, List.count_cons_of_ne hline]

/-- A quoted token ends with its quote. -/
theorem scan_closedQuote {cs text : List Char} (h : Inside ['"'] cs text) (rest : List Char) :
    scan (.quoted start []) n (cs ++ '"' :: rest) =
      (scan .gap (n + text.count '\n') rest).map (⟨String.ofList text, start⟩ :: ·) := by
  have hnext : ['"'].head? = ('"' :: rest).head? := rfl
  rw [scan_inside h hnext, scan, if_pos rfl, List.append_nil, Token.ofReverse, List.reverse_reverse]

end Quoted

/-- Escaped characters stand in a quoted token for what they were. -/
theorem inside_escape {next : List Char} (cs : List Char) : Inside next (escape cs) cs := by
  induction cs with
  | nil => exact .nil
  | cons c cs ih =>
    rw [escape]
    by_cases hspecial : c = '"' ∨ c = '\\'
    · rw [if_pos hspecial]
      exact .escaped hspecial ih
    · rw [if_neg hspecial]
      exact .plain (fun h => hspecial (.inl h)) (fun h => hspecial (.inr h.1)) ih

/-- A text between quotes is one token. -/
theorem scan_enquote (n : Nat) (cs rest : List Char) : scan .gap n (enquote cs ++ rest) =
    (scan .gap (n + cs.count '\n') rest).map (⟨String.ofList cs, n⟩ :: ·) := by
  rw [enquote, List.append_assoc, List.cons_append, scan_quotationMark, List.singleton_append]
  exact scan_closedQuote (inside_escape cs) rest

theorem unbroken_of_needsQuotes {cs : List Char} (h : needsQuotes cs = false) :
    cs ≠ [] ∧ Unbroken cs ∧ beginsComment cs = false := by
  simp only [needsQuotes, Bool.or_eq_false_iff, List.isEmpty_eq_false_iff, List.any_eq_false] at h
  obtain ⟨⟨⟨hne, hany⟩, hslash⟩, hstar⟩ := h
  have hplain : ∀ c ∈ cs, Text.isBlank c = false ∧ c ≠ '"' ∧ c ≠ '#' := by
    intro c hc
    simpa [not_or, and_assoc] using hany c hc
  refine ⟨hne, fun c hc => ⟨(hplain c hc).1, (hplain c hc).2.1⟩, ?_⟩
  obtain ⟨c, cs, rfl⟩ := List.exists_cons_of_ne_nil hne
  have hpair : ∀ d, Text.occursIn ['/', d] (c :: cs) = false → ¬ (c = '/' ∧ cs.head? = some d) := by
    rintro d hno ⟨rfl, hd⟩
    obtain ⟨ds, rfl⟩ := List.head?_eq_some_iff.mp hd
    simp [Text.occursIn] at hno
  refine Bool.eq_false_iff.mpr fun hbegins => ?_
  rcases (beginsComment_cons c cs).mp hbegins with hc | hc | hc
  · exact (hplain c List.mem_cons_self).2.2 hc
  · exact hpair _ hslash hc
  · exact hpair _ hstar hc

/-- **A written value is one token.** -/
theorem scan_quote (n : Nat) (value : String) (rest : List Char) :
    scan .gap n ((quote value).toList ++ '\n' :: rest) =
      (scan .gap (n + value.toList.count '\n' + 1) rest).map (⟨value, n⟩ :: ·) := by
  have hend (m : Nat) : scan .gap m ('\n' :: rest) = scan .gap (m + 1) rest := by
    rw [scan, if_pos rfl]
  unfold quote
  by_cases hquotes : needsQuotes value.toList = true
  · rw [if_pos hquotes, String.toList_ofList, scan_enquote, hend, String.ofList_toList]
  · have hquotes' : needsQuotes value.toList = false := Bool.eq_false_iff.mpr hquotes
    obtain ⟨hne, hunbroken, hcomment⟩ := unbroken_of_needsQuotes hquotes'
    have hcount : value.toList.count '\n' = 0 := by
      refine List.count_eq_zero.mpr fun hmem => ?_
      cases (hunbroken _ hmem).1
    rw [if_neg hquotes, scan_bare hne hunbroken hcomment rfl, hend, hcount, String.ofList_toList]

/-! ### Texts with paired quotes -/

/-- Quotes come in pairs with nothing between them. -/
inductive Paired : List Char → Prop
  | nil : Paired []
  | cons {c : Char} {cs : List Char} : c ≠ '"' → Paired cs → Paired (c :: cs)
  | pair {cs : List Char} : Paired cs → Paired ('"' :: '"' :: cs)

theorem Paired.append {cs rest : List Char} (h : '"' ∉ cs) (hrest : Paired rest) :
    Paired (cs ++ rest) := by
  induction cs with
  | nil => exact hrest
  | cons c cs ih =>
    obtain ⟨hc, hcs⟩ := not_or.mp (mt List.mem_cons.mpr h)
    exact .cons (Ne.symm hc) (ih hcs)

/-- The scan is in no quoted token, and an open bare token does not begin a comment. -/
def Calm : Scan → List Char → Prop
  | .quoted _ _, _ => False
  | .escaped _ _, _ => False
  | .bare text, cs => beginsComment (text.reverse ++ cs) = false
  | _, _ => True

/-- No token begins a comment. -/
def Harmless (r : Except TokenError (List Token)) : Prop :=
  ∀ ts, r = .ok ts → ∀ t ∈ ts, beginsComment t.text.toList = false

theorem Harmless.map {r : Except TokenError (List Token)} (h : Harmless r) {t : Token}
    (ht : beginsComment t.text.toList = false) : Harmless (r.map (t :: ·)) := by
  intro ts hts u hu
  cases r with
  | error e => cases hts
  | ok us =>
    obtain rfl : t :: us = ts := Except.ok.inj hts
    rcases List.mem_cons.mp hu with rfl | hu
    · exact ht
    · exact h us rfl u hu

theorem Calm.ofReverse {text cs : List Char} (h : Calm (.bare text) cs) (n : Nat) :
    beginsComment (Token.ofReverse text n).text.toList = false := by
  refine Bool.eq_false_iff.mpr fun hbegins => ?_
  rw [Token.ofReverse, String.toList_ofList] at hbegins
  have hlong : beginsComment (text.reverse ++ cs) = true := beginsComment_append hbegins cs
  rw [show beginsComment (text.reverse ++ cs) = false from h] at hlong
  cases hlong

/-- A pair of quotes is skipped in a comment, and an empty token elsewhere. -/
theorem scan_pair {st : Scan} {cs : List Char} (hst : Calm st ('"' :: '"' :: cs))
    (hscan : ∀ st, Calm st cs → ∀ n, Harmless (scan st n cs)) (n : Nat) :
    Harmless (scan st n ('"' :: '"' :: cs)) := by
  have hempty (n : Nat) : Harmless (scan (.quoted n []) n ('"' :: cs)) := by
    rw [scan, if_pos rfl]
    exact (hscan .gap trivial n).map rfl
  cases st with
  | gap =>
    rw [scan_quotationMark]
    exact hempty n
  | lineComment =>
    rw [scan, if_neg (by decide), scan, if_neg (by decide)]
    exact hscan .lineComment trivial n
  | opening start =>
    rw [scan, scan, if_neg (by decide), if_neg (by simp)]
    exact hscan (.comment start false) trivial n
  | comment start star =>
    rw [scan, if_neg (by decide), if_neg (by simp), scan, if_neg (by decide), if_neg (by simp)]
    exact hscan (.comment start false) trivial n
  | quoted start text => exact hst.elim
  | escaped start text => exact hst.elim
  | bare text =>
    rw [scan, if_neg (by decide), if_neg (by decide), if_pos rfl]
    exact (hempty n).map (hst.ofReverse n)

/-- **If quotes come in pairs with nothing between them, no token begins a comment.** -/
theorem scan_paired {cs : List Char} (h : Paired cs) :
    ∀ st, Calm st cs → ∀ n, Harmless (scan st n cs) := by
  induction h with
  | nil =>
    intro st hst n ts hts
    cases st with
    | gap | lineComment =>
      obtain rfl : [] = ts := Except.ok.inj hts
      exact fun t ht => nomatch ht
    | opening start | comment start star => cases hts
    | quoted start text | escaped start text => cases hts
    | bare text =>
      obtain rfl : [Token.ofReverse text n] = ts := Except.ok.inj hts
      intro t ht
      obtain rfl := List.mem_singleton.mp ht
      exact hst.ofReverse n
  | @cons c cs hquote _ ih =>
    intro st hst n
    cases st with
    | gap =>
      rw [scan]
      split_ifs with hline hblank hhash hslash hstar
      · exact ih .gap trivial _
      · exact ih .gap trivial _
      · exact ih .lineComment trivial _
      · exact ih .lineComment trivial _
      · exact ih (.opening n) trivial _
      · refine ih (.bare [c]) (Bool.eq_false_iff.mpr fun hbegins => ?_) _
        rcases (beginsComment_cons c cs).mp hbegins with hc | hc | hc
        · exact hhash hc
        · exact hslash hc
        · exact hstar hc
    | lineComment =>
      rw [scan]
      split_ifs
      · exact ih .gap trivial _
      · exact ih .lineComment trivial _
    | opening start => exact ih (.comment start false) trivial _
    | comment start star =>
      rw [scan]
      split_ifs
      · exact ih (.comment start false) trivial _
      · exact ih .gap trivial _
      · exact ih (.comment start _) trivial _
    | quoted start text => exact hst.elim
    | escaped start text => exact hst.elim
    | bare text =>
      rw [scan]
      split_ifs
      · exact (ih .gap trivial _).map (hst.ofReverse n)
      · exact (ih .gap trivial _).map (hst.ofReverse n)
      · refine ih (.bare (c :: text)) ?_ _
        show beginsComment ((c :: text).reverse ++ cs) = false
        rw [List.reverse_cons, List.append_assoc]
        exact hst
  | pair _ ih => exact fun st hst n => scan_pair hst ih n

end DevConsole.Config
