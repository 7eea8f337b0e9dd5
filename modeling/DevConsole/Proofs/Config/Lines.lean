import DevConsole.Proofs.Config.Pieces

/-!
# The lines of tokens

All newlines of a config text are in its pieces, so the newlines before a piece give the line on which
it stands (`Placed.line`). A token gets the line of its first character, and an error that of the
piece that nothing closes, whatever mix of comments and quoted tokens comes before (`tokens_lines`).
-/

namespace DevConsole.Config

/-! ### Places -/

/-- A piece with all that stands before it. -/
structure Placed where
  before : List Char
  piece : Piece

/-- The pieces at their places, behind what stands before them all. -/
def places (before : List Char) : List Piece → List Placed
  | [] => []
  | p :: ps => ⟨before, p⟩ :: places (before ++ p.chars) ps

namespace Placed

/-- The line of the first character: 1 and the newlines before it. -/
def line (q : Placed) : Nat := 1 + q.before.count '\n'

/-- The token that stands here. -/
def token? (q : Placed) : Option Token := q.piece.token? q.line

/-- The error that the scan ends with here. -/
def error? (q : Placed) : Option TokenError := q.piece.error? q.line

end Placed

theorem places_append (before : List Char) (qs ps : List Piece) : places before (qs ++ ps) =
    places before qs ++ places (before ++ qs.flatMap Piece.chars) ps := by
  induction qs generalizing before with
  | nil => simp [places]
  | cons q qs ih => simp [places, ih, List.append_assoc]

/-- What stands before a place is all before the place, and stands with the piece in the text. -/
theorem isPrefix_of_mem_places {before : List Char} {ps : List Piece} {q : Placed}
    (h : q ∈ places before ps) :
    before <+: q.before ∧ q.before ++ q.piece.chars <+: before ++ ps.flatMap Piece.chars := by
  induction ps generalizing before with
  | nil => cases h
  | cons p ps ih =>
    rw [List.flatMap_cons, ← List.append_assoc]
    rcases List.mem_cons.mp h with rfl | h
    · exact ⟨List.prefix_rfl, List.prefix_append _ _⟩
    · obtain ⟨hbefore, hchars⟩ := ih h
      exact ⟨(List.prefix_append _ _).trans hbefore, hchars⟩

theorem piece_mem_of_mem_places {before : List Char} {ps : List Piece} {q : Placed}
    (h : q ∈ places before ps) : q.piece ∈ ps := by
  induction ps generalizing before with
  | nil => cases h
  | cons p ps ih =>
    rcases List.mem_cons.mp h with rfl | h
    · exact List.mem_cons_self
    · exact List.mem_cons_of_mem p (ih h)

/-- Lines never decrease from place to place. -/
theorem pairwise_places (before : List Char) (ps : List Piece) :
    (places before ps).Pairwise fun q r => q.line ≤ r.line := by
  induction ps generalizing before with
  | nil => exact .nil
  | cons p ps ih =>
    refine List.pairwise_cons.mpr ⟨fun q hq => ?_, ih _⟩
    have hbefore := (List.prefix_append _ _).trans (isPrefix_of_mem_places hq).1
    exact Nat.add_le_add_left (hbefore.sublist.count_le '\n') 1

/-- The tokens at places have the lines of these. -/
theorem line_of_token? {q : Placed} {t : Token} (h : q.token? = some t) : t.line = q.line := by
  obtain ⟨before, p⟩ := q
  cases p with
  | bare | quoted => exact congrArg Token.line (Option.some.inj h).symm
  | blank | lineComment | comment | openComment | openQuoted => cases h

theorem pairwise_tokens (before : List Char) (ps : List Piece) :
    ((places before ps).filterMap Placed.token?).Pairwise fun t u => t.line ≤ u.line := by
  refine List.pairwise_filterMap.mpr ((pairwise_places before ps).imp fun {q r} hqr t ht u hu => ?_)
  rw [line_of_token? ht, line_of_token? hu]
  exact hqr

/-! ### Reading at places -/

/-- **Closed pieces are read as their tokens**, in front of what the rest is read as. -/
theorem scan_closed {qs : List Piece} (hqs : ∀ q ∈ qs, q.Closed) :
    ∀ (before : List Char) {cs : List Char} {ps : List Piece}, Cut cs (qs ++ ps) → ∃ rest, Cut rest ps ∧
      scan .gap (1 + before.count '\n') cs = behind ((places before qs).filterMap Placed.token?)
        (scan .gap (1 + (before ++ qs.flatMap Piece.chars).count '\n') rest) := by
  induction qs with
  | nil => exact fun before cs ps h => ⟨cs, h, by simp [places]⟩
  | cons q qs ih =>
    intro before cs ps h
    obtain ⟨hq, hqs⟩ := List.forall_mem_cons.mp hqs
    cases h with
    | @cons _ mid _ hfits hcut =>
      obtain ⟨rest, hrest, hscan⟩ := ih hqs (before ++ q.chars) hcut
      have htokens : (places before (q :: qs)).filterMap Placed.token? =
          (q.token? (1 + before.count '\n')).toList ++
            (places (before ++ q.chars) qs).filterMap Placed.token? := by
        rw [places, List.filterMap_cons, Placed.token?, Placed.line]
        cases q.token? (1 + before.count '\n') <;> rfl
      have hstep : scan .gap (1 + before.count '\n') (q.chars ++ mid) =
          behind (q.token? (1 + before.count '\n')).toList
            (scan .gap (1 + (before ++ q.chars).count '\n') mid) := by
        rw [scan_piece hfits, hq.error?_eq_none, Nat.add_assoc, ← List.count_append]
      refine ⟨rest, hrest, ?_⟩
      rw [hstep, hscan, behind_behind, ← htokens, List.append_assoc, List.flatMap_cons]

/-- A text that is cut into closed pieces is read as their tokens. -/
theorem tokens_closed {cs : List Char} {ps : List Piece} (h : Cut cs ps)
    (hclosed : ∀ p ∈ ps, p.Closed) :
    tokens (String.ofList cs) = .ok ((places [] ps).filterMap Placed.token?) := by
  have h' : Cut cs (ps ++ []) := by rwa [List.append_nil]
  obtain ⟨rest, hrest, hscan⟩ := scan_closed hclosed [] h'
  cases hrest with
  | nil =>
    rw [tokens, String.toList_ofList]
    refine hscan.trans ?_
    rw [scan, behind, Except.map, List.append_nil]

/-- A text whose last piece is open is read as an error on the line where that piece starts. -/
theorem tokens_open {cs : List Char} {qs : List Piece} {p : Piece} (h : Cut cs (qs ++ [p]))
    (hclosed : ∀ q ∈ qs, q.Closed) {e : TokenError}
    (he : Placed.error? ⟨qs.flatMap Piece.chars, p⟩ = some e) :
    tokens (String.ofList cs) = .error e := by
  obtain ⟨rest, hrest, hscan⟩ := scan_closed hclosed [] h
  cases hrest with
  | @cons _ mid _ hfits hmid =>
    have he' : p.error? (1 + ([] ++ qs.flatMap Piece.chars).count '\n') = some e := he
    rw [tokens, String.toList_ofList]
    refine hscan.trans ?_
    rw [scan_piece hfits, he']
    rfl

/-- **Tokens and errors have the lines on which they start.** Every text can be cut into pieces, and
however it is cut, it is read as their tokens, each with 1 and the newlines before its first character,
or, if the last piece is open, as an error with 1 and the newlines before that, where what comes before
it can be read. -/
theorem tokens_lines (text : String) : (∃ ps, Cut text.toList ps) ∧
    ∀ ps, Cut text.toList ps →
      (∀ q ∈ places [] ps, q.before ++ q.piece.chars <+: text.toList) ∧
      (∀ ts, tokens text = .ok ts → (∀ q ∈ places [] ps, q.error? = none) ∧
        ts = (places [] ps).filterMap Placed.token? ∧ ts.Pairwise fun t u => t.line ≤ u.line) ∧
      ∀ e, tokens text = .error e → ∃ q, (places [] ps).getLast? = some q ∧ q.error? = some e ∧
        ∃ ts, tokens (String.ofList q.before) = .ok ts := by
  refine ⟨exists_cut text.toList, fun ps hps => ⟨fun q hq => ?_, ?_⟩⟩
  · rw [← hps.flatMap_chars]
    exact (isPrefix_of_mem_places hq).2
  rw [← text.ofList_toList]
  rcases hps.closed_or_open with hclosed | ⟨qs, p, rfl, hp, hclosed, hcut⟩
  · rw [tokens_closed hps hclosed]
    refine ⟨fun ts hts => ?_, fun e he => nomatch he⟩
    obtain rfl := Except.ok.inj hts
    exact ⟨fun q hq => (hclosed _ (piece_mem_of_mem_places hq)).error?_eq_none q.line, rfl,
      pairwise_tokens [] ps⟩
  · obtain ⟨e, he⟩ := Piece.exists_error? hp (1 + (qs.flatMap Piece.chars).count '\n')
    rw [tokens_open hps hclosed he]
    refine ⟨fun ts hts => (nomatch hts), fun e' he' => ?_⟩
    obtain rfl := Except.error.inj he'
    refine ⟨⟨qs.flatMap Piece.chars, p⟩, ?_, he, _, tokens_closed hcut hclosed⟩
    rw [places_append, List.getLast?_append]
    rfl

/-- Pieces with newlines in a quoted token and in a comment. -/
def multiline : List Piece :=
  [.bare ['a'], .blank ' ', .quoted ['b', '\n'] ['b', '\n'], .comment ['\n'], .bare ['c']]

theorem cut_multiline {rest : List Char} {ps : List Piece} (h : Cut rest ps)
    (hquote : ∀ c, rest.head? = some c → c = '"') :
    Cut (multiline.flatMap Piece.chars ++ rest) (multiline ++ ps) := by
  have hfirst (cs : List Char) : (Piece.bare ['a']).Fits (' ' :: cs) :=
    ⟨by decide, by decide, rfl, by simp [Text.isBlank]⟩
  have hquoted : Inside ['"'] ['b', '\n'] ['b', '\n'] :=
    .plain (by decide) (by decide) (.plain (by decide) (by decide) .nil)
  have hcomment : ¬ ['*', '/'] <:+: ['\n'] := by decide
  have hlast : (Piece.bare ['c']).Fits rest := by
    refine ⟨by decide, by decide, ?_, fun c hc => .inr (hquote c hc)⟩
    cases rest with
    | nil => rfl
    | cons c rest =>
      rw [hquote c rfl]
      rfl
  rw [multiline]
  exact .cons (hfirst _) (.cons (p := .blank ' ') rfl (.cons (p := .quoted _ _) hquoted
    (.cons (p := .comment _) hcomment (.cons hlast h))))

/-- Newlines in quoted tokens and in comments count. -/
theorem tokens_lines_multiline :
    [⟨"a", 1⟩, ⟨"b\n", 1⟩, ⟨"c", 3⟩] = (places [] multiline).filterMap Placed.token? ∧
    ∃ q, (places [] (multiline ++ [.openQuoted ['\n']])).getLast? = some q ∧
      q.before = "a \"b\n\"/*\n*/c".toList ∧ q.error? = some (.unterminatedString 3) ∧
      ∃ ts, tokens (String.ofList q.before) = .ok ts := by
  have hclosed : Cut "a \"b\n\"/*\n*/c".toList multiline :=
    cut_multiline .nil fun c hc => nomatch hc
  have htokens : tokens "a \"b\n\"/*\n*/c" = .ok [⟨"a", 1⟩, ⟨"b\n", 1⟩, ⟨"c", 3⟩] := rfl
  have hfits : (Piece.openQuoted ['\n']).Fits [] :=
    ⟨rfl, _, .plain (by decide) (by decide) .nil⟩
  have hopen : Cut "a \"b\n\"/*\n*/c\"\n".toList (multiline ++ [.openQuoted ['\n']]) :=
    cut_multiline (.cons hfits .nil) fun c hc => (Option.some.inj hc).symm
  have herror : tokens "a \"b\n\"/*\n*/c\"\n" = .error (.unterminatedString 3) := rfl
  refine ⟨(((tokens_lines _).2 multiline hclosed).2.1 _ htokens).2.1, ?_⟩
  obtain ⟨q, hlast, hq, hbefore⟩ := ((tokens_lines _).2 _ hopen).2.2 _ herror
  obtain rfl := Option.some.inj hlast
  exact ⟨_, rfl, rfl, hq, hbefore⟩

end DevConsole.Config
