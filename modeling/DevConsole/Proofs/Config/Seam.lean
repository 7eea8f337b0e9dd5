import DevConsole.Config.Assignments
import DevConsole.Proofs.Config.Scan

/-!
# The seam between two config texts

A written text is put behind another one that can be read. The scanner goes character by character
(`scan_cons`), so the first line of the written text, a comment, may be glued to whatever the other text
ends with, but it can be read there (`scan_glued`), and at its end the scanner is between tokens again
(`scan_newline`). What follows is read as it would be elsewhere, but for the numbers of the lines
(`texts_scan`).
-/

namespace DevConsole.Config

/-! ### One character at a time -/

/-- Where the scanner is after a character. -/
structure Reached where
  scan : Scan
  line : Nat
  /-- The token that ended with the character or before it. -/
  token : Option Token := none

/-- What a character does to the scanner; `next` is the character behind it. -/
def step : Scan → Nat → Char → Option Char → Reached
  | .gap, n, c, next =>
    if c = '\n' then ⟨.gap, n + 1, none⟩
    else if Text.isBlank c then ⟨.gap, n, none⟩
    else if c = '#' then ⟨.lineComment, n, none⟩
    else if c = '/' ∧ next = some '/' then ⟨.lineComment, n, none⟩
    else if c = '/' ∧ next = some '*' then ⟨.opening n, n, none⟩
    else if c = '"' then ⟨.quoted n [], n, none⟩
    else ⟨.bare [c], n, none⟩
  | .lineComment, n, c, _ => if c = '\n' then ⟨.gap, n + 1, none⟩ else ⟨.lineComment, n, none⟩
  | .opening start, n, _, _ => ⟨.comment start false, n, none⟩
  | .comment start star, n, c, _ =>
    if c = '\n' then ⟨.comment start false, n + 1, none⟩
    else if c = '/' ∧ star then ⟨.gap, n, none⟩
    else ⟨.comment start (c == '*'), n, none⟩
  | .quoted start text, n, c, next =>
    if c = '"' then ⟨.gap, n, some (.ofReverse text start)⟩
    else if c = '\\' ∧ (next = some '"' ∨ next = some '\\') then ⟨.escaped start text, n, none⟩
    else if c = '\n' then ⟨.quoted start (c :: text), n + 1, none⟩
    else ⟨.quoted start (c :: text), n, none⟩
  | .escaped start text, n, c, _ => ⟨.quoted start (c :: text), n, none⟩
  | .bare text, n, c, _ =>
    if c = '\n' then ⟨.gap, n + 1, some (.ofReverse text n)⟩
    else if Text.isBlank c then ⟨.gap, n, some (.ofReverse text n)⟩
    else if c = '"' then ⟨.quoted n [], n, some (.ofReverse text n)⟩
    else ⟨.bare (c :: text), n, none⟩

/-- Puts tokens that were read before in front. -/
def behind (ts : List Token) (r : Except TokenError (List Token)) : Except TokenError (List Token) :=
  r.map (ts ++ ·)

@[simp] theorem behind_nil (r : Except TokenError (List Token)) : behind [] r = r := by
  cases r <;> rfl

@[simp] theorem behind_behind (ts us : List Token) (r : Except TokenError (List Token)) :
    behind ts (behind us r) = behind (ts ++ us) r := by
  cases r with
  | error e => rfl
  | ok vs => exact congrArg Except.ok (List.append_assoc ts us vs).symm

theorem behind_eq_ok {ts vs : List Token} {r : Except TokenError (List Token)}
    (h : behind ts r = .ok vs) : ∃ us, r = .ok us ∧ vs = ts ++ us := by
  cases r with
  | error e => cases h
  | ok us => exact ⟨us, rfl, (Except.ok.inj h).symm⟩

/-- **A scan goes on after each character** from where that has led to. -/
theorem scan_cons (st : Scan) (n : Nat) (c : Char) (cs : List Char) :
    scan st n (c :: cs) = behind (step st n c cs.head?).token.toList
      (scan (step st n c cs.head?).scan (step st n c cs.head?).line cs) := by
  cases st with
  | gap | lineComment | comment | quoted | bare =>
    rw [scan, step]
    split_ifs <;> first | exact (behind_nil _).symm | rfl
  | opening | escaped => exact (behind_nil _).symm

/-! ### The end of a text that can be read -/

/-- A text can end here. -/
def Scan.Closed : Scan → Prop
  | .gap | .lineComment | .bare _ => True
  | _ => False

theorem closed_iff {st : Scan} {n : Nat} : st.Closed ↔ ∃ ts, scan st n [] = .ok ts := by
  cases st with
  | gap | lineComment | bare => exact iff_of_true trivial ⟨_, rfl⟩
  | opening | comment | quoted | escaped => exact iff_of_false id fun ⟨_, h⟩ => nomatch h

/-- A newline leads to between tokens, wherever a text can end with it. -/
theorem step_newline {st : Scan} {n : Nat} (h : (step st n '\n' none).scan.Closed)
    (next : Option Char) :
    step st n '\n' next = ⟨.gap, n + 1, (step st n '\n' none).token⟩ := by
  cases st with
  | gap | lineComment | bare => rfl
  | opening | comment | quoted | escaped => exact h.elim

/-- **After a newline the scanner is between tokens**, if the text before could end with it. -/
theorem scan_newline {cs : List Char} {st : Scan} {n : Nat} {ts : List Token}
    (h : scan st n (cs ++ ['\n']) = .ok ts) :
    ∃ m, ∀ rest, scan st n (cs ++ '\n' :: rest) = behind ts (scan .gap m rest) := by
  induction cs generalizing st n ts with
  | nil =>
    rw [List.nil_append, scan_cons] at h
    obtain ⟨us, hus, rfl⟩ := behind_eq_ok h
    have hstep := step_newline (closed_iff.mpr ⟨us, hus⟩)
    rw [List.head?_nil, hstep] at hus
    obtain rfl : [] = us := Except.ok.inj hus
    refine ⟨n + 1, fun rest => ?_⟩
    rw [List.nil_append, scan_cons, hstep, List.append_nil]
    rfl
  | cons c cs ih =>
    have hhead : ∀ rest, (cs ++ '\n' :: rest).head? = (cs ++ ['\n']).head? := by
      intro rest
      cases cs <;> rfl
    rw [List.cons_append, scan_cons] at h
    obtain ⟨us, hus, rfl⟩ := behind_eq_ok h
    obtain ⟨m, hm⟩ := ih hus
    refine ⟨m, fun rest => ?_⟩
    rw [List.cons_append, scan_cons, hhead, hm, behind_behind]

/-- The characters end no text inside a token or comment. -/
def Plain (cs : List Char) : Prop := ∀ c ∈ cs, c ≠ '"' ∧ c ≠ '*'

instance (cs : List Char) : Decidable (Plain cs) := List.decidableBAll _ cs

/-- Where a text can end with a character, it can end after it with others behind, unless a star
makes it open a comment. -/
theorem step_closed {st : Scan} {n : Nat} {c : Char} {next : Option Char}
    (h : (step st n c none).scan.Closed) (hnext : next ≠ some '*') :
    (step st n c next).scan.Closed := by
  cases st with
  | gap =>
    revert h
    simp only [step]
    split_ifs <;> simp_all [Scan.Closed]
  | quoted start text =>
    revert h
    simp only [step]
    split_ifs <;> simp_all [Scan.Closed]
  | lineComment | opening | comment | escaped | bare => exact h

/-- Characters that are no quotes lead from where a text can end to where one can. -/
theorem step_plain {st : Scan} {n : Nat} {c : Char} (hst : st.Closed) (hc : c ≠ '"') :
    (step st n c none).scan.Closed := by
  cases st with
  | gap | lineComment | bare =>
    simp only [step]
    split_ifs <;> simp_all [Scan.Closed]
  | opening | comment | quoted | escaped => exact hst.elim

theorem scan_plain {cs : List Char} (h : Plain cs) {st : Scan} (hst : st.Closed) (n : Nat) :
    ∃ ts, scan st n cs = .ok ts := by
  induction cs generalizing st n with
  | nil => exact closed_iff.mp hst
  | cons c cs ih =>
    obtain ⟨⟨hquote, -⟩, hcs⟩ := List.forall_mem_cons.mp h
    have hnext : cs.head? ≠ some '*' := fun hstar => (hcs _ (List.mem_of_mem_head? hstar)).2 rfl
    obtain ⟨ts, hts⟩ := ih hcs (step_closed (step_plain hst hquote) hnext) (step st n c cs.head?).line
    exact ⟨_, by rw [scan_cons, hts]; rfl⟩

/-- **A text that can be read can be read with plain characters behind it**, though its last token may
be another one then. -/
theorem scan_glued {cs extra : List Char} (hextra : Plain extra) {st : Scan} {n : Nat}
    {ts : List Token} (h : scan st n cs = .ok ts) : ∃ us, scan st n (cs ++ extra) = .ok us := by
  induction cs generalizing st n ts with
  | nil => exact scan_plain hextra (closed_iff.mpr ⟨ts, h⟩) n
  | cons c cs ih =>
    rw [scan_cons] at h
    obtain ⟨us, hus, -⟩ := behind_eq_ok h
    obtain ⟨vs, hvs⟩ : ∃ vs, scan (step st n c (cs ++ extra).head?).scan
        (step st n c (cs ++ extra).head?).line (cs ++ extra) = .ok vs := by
      cases cs with
      | cons d cs => exact ih hus
      | nil =>
        -- the last character may open a comment with the first one behind it
        have hnext : extra.head? ≠ some '*' :=
          fun hstar => (hextra _ (List.mem_of_mem_head? hstar)).2 rfl
        exact scan_plain hextra (step_closed (closed_iff.mpr ⟨us, hus⟩) hnext) _
    exact ⟨_, by rw [List.cons_append, scan_cons, hvs]; rfl⟩

/-! ### The numbers of the lines -/

/-- The states are the same, but for the line on which something started. -/
inductive Alike : Scan → Scan → Prop
  | refl (st : Scan) : Alike st st
  | opening (n m : Nat) : Alike (.opening n) (.opening m)
  | comment (n m : Nat) (star : Bool) : Alike (.comment n star) (.comment m star)
  | quoted (n m : Nat) (text : List Char) : Alike (.quoted n text) (.quoted m text)
  | escaped (n m : Nat) (text : List Char) : Alike (.escaped n text) (.escaped m text)

/-- The texts of the tokens, if all can be read. -/
def texts (r : Except TokenError (List Token)) : Option (List String) :=
  r.toOption.map fun ts => ts.map (·.text)

theorem texts_behind (ts : List Token) (r : Except TokenError (List Token)) :
    texts (behind ts r) = (texts r).map (ts.map (·.text) ++ ·) := by
  cases r with
  | error e => rfl
  | ok us => exact congrArg some List.map_append

/-- The numbers of the lines play no role for what a character leads to. -/
theorem step_alike {st st' : Scan} (h : Alike st st') (n m : Nat) (c : Char) (next : Option Char) :
    Alike (step st n c next).scan (step st' m c next).scan ∧
      (step st n c next).token.map (·.text) = (step st' m c next).token.map (·.text) := by
  cases h with
  | refl =>
    cases st with
    | gap | lineComment | comment | quoted | bare =>
      simp only [step]
      split_ifs <;> exact ⟨by constructor, rfl⟩
    | opening | escaped => exact ⟨by constructor, rfl⟩
  | comment | quoted =>
    simp only [step]
    split_ifs <;> exact ⟨by constructor, rfl⟩
  | opening | escaped => exact ⟨by constructor, rfl⟩

/-- **The texts of the tokens do not depend on the numbers of the lines.** -/
theorem texts_scan {st st' : Scan} (h : Alike st st') (n m : Nat) (cs : List Char) :
    texts (scan st n cs) = texts (scan st' m cs) := by
  induction cs generalizing st st' n m with
  | nil => cases h <;> first | rfl | cases st <;> rfl
  | cons c cs ih =>
    obtain ⟨halike, htoken⟩ := step_alike h n m c cs.head?
    have htexts : ∀ t : Option Token, t.toList.map (·.text) = (t.map (·.text)).toList := by
      intro t
      cases t <;> rfl
    rw [scan_cons, scan_cons, texts_behind, texts_behind, htexts, htexts, htoken, ih halike]

end DevConsole.Config
