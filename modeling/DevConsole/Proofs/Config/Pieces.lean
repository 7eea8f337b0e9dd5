import DevConsole.Proofs.Config.Rendering
import DevConsole.Proofs.Config.Seam
import Mathlib.Data.List.TakeWhile

/-!
# The pieces of a config text

A config text is cut into pieces (`Cut`): white space, comments, bare and quoted tokens, and at the end
possibly a comment or a quoted token that nothing closes. Every text can be cut so (`exists_cut`), and
the scanner reads one piece after the other (`scan_piece`).
-/

namespace DevConsole.Config

/-! ### Pieces -/

/-- A piece of a config text. -/
inductive Piece
  /-- A character of white space. -/
  | blank (c : Char)
  /-- A comment that ends with the line: what starts it and the rest of the line. -/
  | lineComment (mark body : List Char)
  /-- A comment between `/*` and `*/`. -/
  | comment (body : List Char)
  /-- A bare token. -/
  | bare (text : List Char)
  /-- A quoted token: what stands between the quotes, and the text it is read as. -/
  | quoted (body text : List Char)
  /-- A comment that is not closed. -/
  | openComment (body : List Char)
  /-- A quoted token that is not closed. -/
  | openQuoted (body : List Char)

namespace Piece

/-- The characters of the piece. -/
def chars : Piece → List Char
  | blank c => [c]
  | lineComment mark body => mark ++ body
  | comment body => '/' :: '*' :: (body ++ ['*', '/'])
  | bare text => text
  | quoted body _ => '"' :: (body ++ ['"'])
  | openComment body => '/' :: '*' :: body
  | openQuoted body => '"' :: body

/-- Between tokens and with these characters behind it, the piece is what its name says. -/
def Fits (rest : List Char) : Piece → Prop
  | blank c => Text.isBlank c = true
  | lineComment mark body => (mark = ['#'] ∨ mark = ['/', '/']) ∧ '\n' ∉ body ∧
      ∀ c, rest.head? = some c → c = '\n'
  | comment body => ¬ ['*', '/'] <:+: body
  | bare text => text ≠ [] ∧ Unbroken text ∧ beginsComment (text ++ rest) = false ∧
      ∀ c, rest.head? = some c → Text.isBlank c = true ∨ c = '"'
  | quoted body text => Inside ['"'] body text
  | openComment body => rest = [] ∧ ¬ ['*', '/'] <:+: body
  | openQuoted body => rest = [] ∧ ∃ text, Inside [] body text

/-- The token that the piece is, if it starts on this line. -/
def token? (line : Nat) : Piece → Option Token
  | bare text | quoted _ text => some ⟨String.ofList text, line⟩
  | _ => none

/-- The error that the piece is, if it starts on this line. -/
def error? (line : Nat) : Piece → Option TokenError
  | openComment _ => some (.unterminatedComment line)
  | openQuoted _ => some (.unterminatedString line)
  | _ => none

end Piece

/-- The text is cut into the pieces. -/
inductive Cut : List Char → List Piece → Prop
  | nil : Cut [] []
  | cons {p : Piece} {rest : List Char} {ps : List Piece} : p.Fits rest → Cut rest ps →
      Cut (p.chars ++ rest) (p :: ps)

/-! ### Every text can be cut -/

/-- What is closed is closed at one place first. -/
theorem exists_first_close {cs : List Char} (h : ['*', '/'] <:+: cs) :
    ∃ body rest, cs = body ++ '*' :: '/' :: rest ∧ ¬ ['*', '/'] <:+: body := by
  induction cs with
  | nil => simp at h
  | cons c cs ih =>
    by_cases hhere : ['*', '/'] <+: c :: cs
    · obtain ⟨rest, hrest⟩ := hhere
      exact ⟨[], rest, hrest.symm, by simp⟩
    · obtain ⟨body, rest, rfl, hbody⟩ := ih ((List.infix_cons_iff.mp h).resolve_left hhere)
      refine ⟨c :: body, rest, rfl, fun hinfix => ?_⟩
      rcases List.infix_cons_iff.mp hinfix with hfirst | hlater
      · exact hhere (hfirst.trans ⟨'*' :: '/' :: rest, by simp⟩)
      · exact hbody hlater

/-- A quoted token is closed somewhere, or else it runs to the end. -/
theorem exists_inside (cs : List Char) : (∃ text, Inside [] cs text) ∨
    ∃ body text rest, cs = body ++ '"' :: rest ∧ Inside ['"'] body text := by
  match cs with
  | [] => exact .inl ⟨[], .nil⟩
  | c :: cs =>
    by_cases hquote : c = '"'
    · exact .inr ⟨[], [], cs, by rw [hquote, List.nil_append], .nil⟩
    by_cases hescape : c = '\\' ∧ (cs.head? = some '"' ∨ cs.head? = some '\\')
    · obtain ⟨d, hd, cs', rfl⟩ : ∃ d, (d = '"' ∨ d = '\\') ∧ ∃ tail, cs = d :: tail := by
        rcases hescape.2 with h | h
        · exact ⟨'"', .inl rfl, List.head?_eq_some_iff.mp h⟩
        · exact ⟨'\\', .inr rfl, List.head?_eq_some_iff.mp h⟩
      rw [hescape.1]
      rcases exists_inside cs' with ⟨text, h⟩ | ⟨body, text, rest, rfl, h⟩
      · exact .inl ⟨d :: text, .escaped hd h⟩
      · exact .inr ⟨'\\' :: d :: body, d :: text, rest, rfl, .escaped hd h⟩
    · rcases exists_inside cs with ⟨text, h⟩ | ⟨body, text, rest, rfl, h⟩
      · exact .inl ⟨c :: text, .plain hquote (by rwa [List.append_nil]) h⟩
      · have hhead : (body ++ ['"']).head? = (body ++ '"' :: rest).head? := by cases body <;> rfl
        exact .inr ⟨c :: body, c :: text, rest, rfl, .plain hquote (by rwa [hhead]) h⟩
termination_by cs.length

/-- The characters that pass a test, up to the first one that does not. -/
theorem exists_span (p : Char → Bool) (cs : List Char) : ∃ body rest, cs = body ++ rest ∧
    (∀ c ∈ body, p c = true) ∧ ∀ c, rest.head? = some c → p c = false := by
  refine ⟨cs.takeWhile p, cs.dropWhile p, List.takeWhile_append_dropWhile.symm,
    fun c hc => List.mem_takeWhile_imp hc, fun c hc => ?_⟩
  have hnot := List.head?_dropWhile_not p cs
  rw [hc] at hnot
  exact hnot

/-- A comment up to the end of the line. -/
theorem exists_lineComment {mark : List Char} (hmark : mark = ['#'] ∨ mark = ['/', '/'])
    (cs : List Char) : ∃ p rest, mark ++ cs = Piece.chars p ++ rest ∧ p.Fits rest := by
  obtain ⟨body, rest, rfl, hbody, hrest⟩ := exists_span (· != '\n') cs
  refine ⟨.lineComment mark body, rest, (List.append_assoc _ _ _).symm, hmark, fun hmem => ?_,
    fun c hc => by simpa using hrest c hc⟩
  simpa using hbody _ hmem

/-- A bare token up to white space, a quote, or the end. -/
theorem exists_bare {c : Char} {cs : List Char} (hblank : Text.isBlank c = false) (hquote : c ≠ '"')
    (hcomment : beginsComment (c :: cs) = false) :
    ∃ p rest, c :: cs = Piece.chars p ++ rest ∧ p.Fits rest := by
  obtain ⟨body, rest, rfl, hbody, hrest⟩ :=
    exists_span (fun d => !Text.isBlank d && d != '"') cs
  refine ⟨.bare (c :: body), rest, rfl, List.cons_ne_nil c body, ?_, hcomment, fun d hd => ?_⟩
  · refine List.forall_mem_cons.mpr ⟨⟨hblank, hquote⟩, fun d hd => ?_⟩
    simpa using hbody d hd
  · have hstop := hrest d hd
    simpa [or_iff_not_imp_left] using hstop

/-- A piece at the beginning of a text. -/
theorem exists_piece (c : Char) (cs : List Char) :
    ∃ p rest, c :: cs = Piece.chars p ++ rest ∧ p.Fits rest := by
  by_cases hblank : Text.isBlank c = true
  · exact ⟨.blank c, cs, rfl, hblank⟩
  by_cases hquote : c = '"'
  · rw [hquote]
    rcases exists_inside cs with ⟨text, h⟩ | ⟨body, text, rest, rfl, h⟩
    · exact ⟨.openQuoted cs, [], by simp [Piece.chars], rfl, text, h⟩
    · exact ⟨.quoted body text, rest, by simp [Piece.chars], h⟩
  by_cases hcomment : beginsComment (c :: cs) = true
  · rcases (beginsComment_cons c cs).mp hcomment with rfl | ⟨rfl, hslash⟩ | ⟨rfl, hstar⟩
    · exact exists_lineComment (.inl rfl) cs
    · obtain ⟨cs, rfl⟩ := List.head?_eq_some_iff.mp hslash
      exact exists_lineComment (.inr rfl) cs
    · obtain ⟨cs, rfl⟩ := List.head?_eq_some_iff.mp hstar
      by_cases hclosed : ['*', '/'] <:+: cs
      · obtain ⟨body, rest, rfl, hbody⟩ := exists_first_close hclosed
        exact ⟨.comment body, rest, by simp [Piece.chars], hbody⟩
      · exact ⟨.openComment cs, [], by simp [Piece.chars], rfl, hclosed⟩
  · exact exists_bare (Bool.eq_false_iff.mpr hblank) hquote (Bool.eq_false_iff.mpr hcomment)

theorem Piece.chars_ne_nil {p : Piece} {rest : List Char} (h : p.Fits rest) : p.chars ≠ [] := by
  cases p with
  | bare text => exact h.1
  | lineComment mark body => rcases h.1 with rfl | rfl <;> exact List.cons_ne_nil _ _
  | blank | comment | quoted | openComment | openQuoted => exact List.cons_ne_nil _ _

/-- **Every text can be cut into pieces.** -/
theorem exists_cut (cs : List Char) : ∃ ps, Cut cs ps := by
  match cs with
  | [] => exact ⟨[], .nil⟩
  | c :: cs =>
    obtain ⟨p, rest, hsplit, hfits⟩ := exists_piece c cs
    have hlength : 0 < p.chars.length := List.length_pos_iff.mpr (Piece.chars_ne_nil hfits)
    have hshorter : rest.length < (c :: cs).length := by
      rw [hsplit, List.length_append]
      omega
    obtain ⟨ps, hps⟩ := exists_cut rest
    exact ⟨p :: ps, hsplit ▸ .cons hfits hps⟩
termination_by cs.length
decreasing_by exact hshorter

/-! ### Where a cut ends -/

namespace Piece

/-- There may be more behind the piece. -/
def Closed : Piece → Prop
  | openComment _ | openQuoted _ => False
  | _ => True

theorem Closed.error?_eq_none {p : Piece} (h : p.Closed) (line : Nat) : p.error? line = none := by
  cases p with
  | openComment | openQuoted => exact h.elim
  | blank | lineComment | comment | bare | quoted => rfl

theorem exists_error? {p : Piece} (h : ¬ p.Closed) (line : Nat) : ∃ e, p.error? line = some e := by
  cases p with
  | openComment | openQuoted => exact ⟨_, rfl⟩
  | blank | lineComment | comment | bare | quoted => exact (h trivial).elim

theorem eq_nil_of_not_closed {p : Piece} {rest : List Char} (h : ¬ p.Closed) (hfits : p.Fits rest) :
    rest = [] := by
  cases p with
  | openComment | openQuoted => exact hfits.1
  | blank | lineComment | comment | bare | quoted => exact (h trivial).elim

/-- A closed piece is what it is whether or not there is more behind it. -/
theorem Fits.of_append {p : Piece} {cs rest : List Char} (hp : p.Closed) (h : p.Fits (cs ++ rest)) :
    p.Fits cs := by
  have hhead : ∀ c, cs.head? = some c → (cs ++ rest).head? = some c := fun c hc => by
    rw [List.head?_append, hc, Option.some_or]
  cases p with
  | blank | comment | quoted => exact h
  | lineComment mark body =>
    obtain ⟨hmark, hbody, hend⟩ := h
    exact ⟨hmark, hbody, fun c hc => hend c (hhead c hc)⟩
  | bare text =>
    obtain ⟨hne, hunbroken, hbegins, hend⟩ := h
    refine ⟨hne, hunbroken, Bool.eq_false_iff.mpr fun hcomment => ?_, fun c hc => hend c (hhead c hc)⟩
    rw [← List.append_assoc, beginsComment_append hcomment rest] at hbegins
    cases hbegins
  | openComment | openQuoted => exact hp.elim

end Piece

theorem Cut.flatMap_chars {cs : List Char} {ps : List Piece} (h : Cut cs ps) :
    ps.flatMap Piece.chars = cs := by
  induction h with
  | nil => rfl
  | cons _ _ ih => rw [List.flatMap_cons, ih]

theorem Cut.eq_nil {ps : List Piece} (h : Cut [] ps) : ps = [] := by
  cases ps with
  | nil => rfl
  | cons p ps =>
    generalize hcs : ([] : List Char) = cs at h
    cases h with
    | cons hfits _ => exact (Piece.chars_ne_nil hfits (List.append_eq_nil_iff.mp hcs.symm).1).elim

/-- **Only the last piece can be open**, and then the ones before it are a text of their own. -/
theorem Cut.closed_or_open {cs : List Char} {ps : List Piece} (h : Cut cs ps) :
    (∀ p ∈ ps, p.Closed) ∨ ∃ qs p, ps = qs ++ [p] ∧ ¬ p.Closed ∧ (∀ q ∈ qs, q.Closed) ∧
      Cut (qs.flatMap Piece.chars) qs := by
  induction h with
  | nil => exact .inl fun p hp => nomatch hp
  | @cons p rest ps hfits hrest ih =>
    by_cases hp : p.Closed
    · rcases ih with hclosed | ⟨qs, r, rfl, hr, hclosed, hcut⟩
      · exact .inl (List.forall_mem_cons.mpr ⟨hp, hclosed⟩)
      · refine .inr ⟨p :: qs, r, rfl, hr, List.forall_mem_cons.mpr ⟨hp, hclosed⟩, .cons ?_ hcut⟩
        rw [← hrest.flatMap_chars, List.flatMap_append] at hfits
        exact hfits.of_append hp
    · obtain rfl := Piece.eq_nil_of_not_closed hp hfits
      obtain rfl := hrest.eq_nil
      exact .inr ⟨[], p, rfl, hp, fun q hq => (nomatch hq), .nil⟩

/-! ### Reading piece by piece -/

section Reading
variable {n : Nat} {rest : List Char}

/-- A bare token ends before white space, a quote, or the end. -/
theorem scan_bare_stop {text : List Char}
    (hrest : ∀ c, rest.head? = some c → Text.isBlank c = true ∨ c = '"') :
    scan (.bare text) n rest = behind [.ofReverse text n] (scan .gap n rest) := by
  cases rest with
  | nil => rfl
  | cons c rest =>
    rcases hrest c rfl with hblank | rfl
    · exact scan_bare_blank hblank text
    · rw [scan_quotationMark, scan, if_neg (by decide), if_neg (by decide), if_pos rfl]
      rfl

/-- **The scanner reads piece by piece**, and counts the newlines in each. -/
theorem scan_piece {p : Piece} (h : p.Fits rest) (n : Nat) : scan .gap n (p.chars ++ rest) =
    match p.error? n with
    | some e => .error e
    | none => behind (p.token? n).toList (scan .gap (n + p.chars.count '\n') rest) := by
  cases p with
  | blank c =>
    show scan .gap n (c :: rest) = behind [] (scan .gap (n + [c].count '\n') rest)
    rw [behind_nil, scan_blank n rest h]
  | lineComment mark body =>
    obtain ⟨hmark, hbody, hrest⟩ := h
    show scan .gap n (mark ++ body ++ rest) = behind [] (scan .gap (n + (mark ++ body).count '\n') rest)
    have hmark' : mark.count '\n' = 0 := by rcases hmark with rfl | rfl <;> rfl
    rw [behind_nil, List.count_append, hmark', List.count_eq_zero.mpr hbody, Nat.add_zero,
      List.append_assoc, ← scan_restOfLine hbody hrest]
    rcases hmark with rfl | rfl
    · exact scan_hash n _
    · exact scan_slashes n _
  | comment body =>
    show scan .gap n ('/' :: '*' :: ((body ++ ['*', '/']) ++ rest)) =
      behind [] (scan .gap (n + ('/' :: '*' :: (body ++ ['*', '/'])).count '\n') rest)
    rw [behind_nil, scan_slashStar, List.append_assoc]
    refine (scan_comment h).trans ?_
    simp
  | bare text =>
    obtain ⟨hne, hunbroken, hbegins, hrest⟩ := h
    show scan .gap n (text ++ rest) =
      behind [⟨String.ofList text, n⟩] (scan .gap (n + text.count '\n') rest)
    have hcount : text.count '\n' = 0 :=
      List.count_eq_zero.mpr fun hmem => ne_newline (hunbroken _ hmem).1 rfl
    rw [scan_bare_open hne hunbroken hbegins, scan_bare_stop hrest, hcount, Token.ofReverse,
      List.reverse_reverse, Nat.add_zero]
  | quoted body text =>
    show scan .gap n ('"' :: ((body ++ ['"']) ++ rest)) =
      behind [⟨String.ofList text, n⟩] (scan .gap (n + ('"' :: (body ++ ['"'])).count '\n') rest)
    rw [scan_quotationMark, List.append_assoc]
    refine (scan_closedQuote h rest).trans ?_
    rw [← h.count_newline]
    simp [behind]
  | openComment body =>
    obtain ⟨rfl, hbody⟩ := h
    obtain ⟨star, hscan⟩ := scan_unclosed n false hbody (by simp)
    show scan .gap n ('/' :: '*' :: (body ++ [])) = .error (.unterminatedComment n)
    rw [scan_slashStar, hscan, scan]
  | openQuoted body =>
    obtain ⟨rfl, text, hbody⟩ := h
    show scan .gap n ('"' :: (body ++ [])) = .error (.unterminatedString n)
    rw [scan_quotationMark, scan_inside hbody rfl, scan]

end Reading

end DevConsole.Config
