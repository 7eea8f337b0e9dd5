import DevConsole.Proofs.Number.Bytes
import DevConsole.Proofs.Number.RoundTrip
import Mathlib.Data.Nat.Digits.Defs

/-!
# Saturated integers

An integer is read digit by digit in words of 64 bits, and the value is cut off at each digit one above
the largest integer of 32 bits. No word overflows on the way (`pushDigit?_eq`, and along a whole run
`foldlM_pushDigit?`), however long the run is, and the cuts at the digits with the one after the sign are
one cut of the exact value (`leadingInteger_exact`).
-/

namespace DevConsole.Number

open Text

/-! ### Words of 64 bits -/

/-- A number, if a word of 64 bits holds it. -/
def word? (n : ℤ) : Option ℤ := if -2 ^ 63 ≤ n ∧ n < 2 ^ 63 then some n else none

theorem word?_eq {n : ℤ} (hlow : -2 ^ 63 ≤ n) (hhigh : n < 2 ^ 63) : word? n = some n :=
  if_pos ⟨hlow, hhigh⟩

/-- The value with one more digit, cut off; each number on the way has to fit. -/
def pushDigit? (n : ℤ) (b : UInt8) : Option ℤ := do
  let tens ← word? (n * 10)
  let sum ← word? (tens + (b.toNat - 48))
  return min sum 0x80000000

/-- The integer that the bytes start with, computed in words. -/
def wordInteger? (bs : List UInt8) : Option ℤ := do
  let isNegative := bs.head? == some 45
  let ds := if isNegative || bs.head? == some 43 then bs.tail else bs
  let n ← (ds.takeWhile isDigitByte).foldlM pushDigit? 0
  let n ← if isNegative then word? (-n) else some n
  return max (-2 ^ 31) (min n (2 ^ 31 - 1))

theorem digitValue_le {d : Char} (hd : isDigit d = true) : digitValue d ≤ 9 := by
  have hrange := isDigit_iff.mp hd
  rw [digitValue, Char.toNat, show '0'.toNat = 48 from rfl]
  omega

theorem cappedValue_le (ds : List Char) : cappedValue ds ≤ 0x80000000 := by
  rw [cappedValue_eq]
  exact min_le_right _ _

/-- **One more digit fits**: a value that was cut off is far below the bounds of a word. -/
theorem pushDigit?_eq {n : ℕ} (hn : n ≤ 0x80000000) {d : Char} (hd : isDigit d = true) :
    pushDigit? n (byteOf d) = some ((min (10 * n + digitValue d) 0x80000000 : ℕ) : ℤ) := by
  have hdigit : ((byteOf d).toNat : ℤ) - 48 = digitValue d := by
    have hrange := isDigit_iff.mp hd
    rw [toNat_byteOf (lt_of_isDigit hd), digitValue, Char.toNat, show '0'.toNat = 48 from rfl]
    omega
  have hle := digitValue_le hd
  have htens : word? (n * 10) = some (n * 10 : ℤ) := word?_eq (by omega) (by omega)
  have hsum : word? (n * 10 + digitValue d) = some (n * 10 + digitValue d : ℤ) :=
    word?_eq (by omega) (by omega)
  unfold pushDigit?
  rw [htens, Option.bind_eq_bind, Option.bind_some, hdigit, hsum]
  have hcut : min (n * 10 + digitValue d : ℤ) 0x80000000 =
      ((min (10 * n + digitValue d) 0x80000000 : ℕ) : ℤ) := by
    push_cast
    rw [mul_comm]
  exact congrArg some hcut

/-- A run of steps that can fail, with one more step. -/
theorem foldlM_concat {α β : Type} (f : β → α → Option β) (b : β) (as : List α) (a : α) :
    (as ++ [a]).foldlM f b = (as.foldlM f b).bind (f · a) := by simp

/-- **No run of digits overflows a word.** -/
theorem foldlM_pushDigit? {ds : List Char} (hds : ∀ d ∈ ds, isDigit d = true) :
    (utf8 ds).foldlM pushDigit? 0 = some (cappedValue ds : ℤ) := by
  induction ds using List.reverseRecOn with
  | nil => rfl
  | append_singleton ds d ih =>
    have hd : isDigit d = true := hds d (by simp)
    have hbyte : utf8 (ds ++ [d]) = utf8 ds ++ [byteOf d] := by
      rw [utf8_append, utf8_cons, utf8_digit hd]
      rfl
    have hcapped : cappedValue (ds ++ [d]) = min (10 * cappedValue ds + digitValue d) 0x80000000 := by
      rw [cappedValue, List.foldl_append, List.foldl_cons, List.foldl_nil, ← cappedValue]
    rw [hbyte, foldlM_concat, ih fun c hc => hds c (by simp [hc]), Option.bind_some,
      pushDigit?_eq (cappedValue_le ds) hd, hcapped]

/-- **Reading in words gives the integer**, whatever the text. -/
theorem wordInteger?_utf8 (cs : List Char) : wordInteger? (utf8 cs) =
    some (clamp (signed (splitSign cs).1 (cappedValue ((splitSign cs).2.takeWhile isDigit)))).toInt := by
  have hdigits : ∀ rest : List Char, ((utf8 rest).takeWhile isDigitByte).foldlM pushDigit? 0 =
      some (cappedValue (rest.takeWhile isDigit) : ℤ) := by
    intro rest
    rw [takeWhile_utf8]
    exact foldlM_pushDigit? fun d hd => List.mem_takeWhile_imp hd
  have hnegative : ∀ ds : List Char, word? (-(cappedValue ds : ℤ)) = some (-(cappedValue ds : ℤ)) := by
    intro ds
    have := cappedValue_le ds
    exact word?_eq (by omega) (by omega)
  unfold wordInteger?
  rw [toInt_clamp]
  rcases splitSign_cases cs with ⟨rest, rfl, heq⟩ | ⟨rest, rfl, heq⟩ | ⟨hhead, heq⟩ <;> rw [heq]
  · have hbytes : utf8 ('-' :: rest) = 45 :: utf8 rest := rfl
    rw [hbytes]
    simp [hdigits, hnegative, signed]
  · have hbytes : utf8 ('+' :: rest) = 43 :: utf8 rest := rfl
    rw [hbytes]
    simp [hdigits, signed]
  · have hminus : (utf8 cs).head? ≠ some 45 :=
      mt (head?_utf8 (c := '-') (by decide) cs).mp fun h => (hhead _ h).1 rfl
    have hplus : (utf8 cs).head? ≠ some 43 :=
      mt (head?_utf8 (c := '+') (by decide) cs).mp fun h => (hhead _ h).2 rfl
    simp [hminus, hplus, hdigits, signed]

/-! ### The exact value -/

/-- The value of a sign and digits, however many. -/
def signedValue (sign digits : List Char) : ℤ :=
  (if sign = ['-'] then -1 else 1) * (Nat.ofDigits 10 (digits.reverse.map digitValue) : ℕ)

theorem digitsValue_eq_ofDigits (ds : List Char) :
    digitsValue ds = Nat.ofDigits 10 (ds.reverse.map digitValue) := by
  induction ds using List.reverseRecOn with
  | nil => rfl
  | append_singleton ds d ih =>
    rw [digitsValue_concat, ih, List.reverse_concat, List.map_cons, Nat.ofDigits_cons]
    ring

theorem signed_digitsValue (sign ds : List Char) : signed sign (digitsValue ds) = signedValue sign ds := by
  rw [digitsValue_eq_ofDigits, signed, signedValue]
  split <;> simp

/-- The characters are white space, a sign if there is one, the longest run of digits there, and what
follows. -/
structure SignedRun (cs blanks sign digits tail : List Char) : Prop where
  append : blanks ++ (sign ++ (digits ++ tail)) = cs
  blank : ∀ c ∈ blanks, isBlank c = true
  bare : ∀ c, (sign ++ (digits ++ tail)).head? = some c → isBlank c = false
  sign : IsSign sign (digits ++ tail)
  digit : ∀ c ∈ digits, isDigit c = true
  longest : ∀ c, tail.head? = some c → isDigit c = false

/-- Every text begins with such a run, which may be empty. -/
theorem exists_signedRun (cs : List Char) : ∃ blanks sign digits tail,
    SignedRun cs blanks sign digits tail := by
  obtain ⟨hsign, happend⟩ := isSign_splitSign (dropBlank cs)
  have hrun : (splitSign (dropBlank cs)).2.takeWhile isDigit ++
      (splitSign (dropBlank cs)).2.dropWhile isDigit = (splitSign (dropBlank cs)).2 :=
    List.takeWhile_append_dropWhile
  refine ⟨cs.takeWhile isBlank, (splitSign (dropBlank cs)).1,
    (splitSign (dropBlank cs)).2.takeWhile isDigit, (splitSign (dropBlank cs)).2.dropWhile isDigit, ?_⟩
  constructor
  · rw [hrun, happend]
    exact List.takeWhile_append_dropWhile
  · exact fun c hc => List.mem_takeWhile_imp hc
  · rw [hrun, happend]
    exact fun c hc => head?_dropBlank hc
  · rwa [hrun]
  · exact fun c hc => List.mem_takeWhile_imp hc
  · intro c hc
    have hnot := List.head?_dropWhile_not isDigit (splitSign (dropBlank cs)).2
    rw [hc] at hnot
    simpa using hnot

section SignedRun
variable {cs blanks sign digits tail : List Char} (h : SignedRun cs blanks sign digits tail)
include h

theorem SignedRun.dropBlank_eq : dropBlank cs = sign ++ (digits ++ tail) := by
  rw [← h.append, dropBlank, List.dropWhile_append_of_pos h.blank]
  exact dropBlank_eq_self h.bare

theorem SignedRun.takeWhile_eq : (digits ++ tail).takeWhile isDigit = digits := by
  rw [List.takeWhile_append_of_pos h.digit]
  cases tail with
  | nil => exact List.append_nil _
  | cons c tail => rw [List.takeWhile_cons_of_neg (by simp [h.longest c rfl]), List.append_nil]

/-- The integer that a text starts with is the value of its run, kept in range. -/
theorem SignedRun.toInt_leadingInteger :
    (leadingInteger (String.ofList cs)).toInt =
      max (-2 ^ 31) (min (signedValue sign digits) (2 ^ 31 - 1)) := by
  unfold leadingInteger
  rw [String.toList_ofList, h.dropBlank_eq, splitSign_append h.sign]
  dsimp only
  rw [h.takeWhile_eq, clamp_signed_cappedValue, signed_digitsValue, toInt_clamp]

end SignedRun

/-- **The integer that a text starts with is exact and saturated.** Every text begins with white space,
a sign if there is one, and a run of digits, and the integer is the value of this run, nothing for no
digits, cut off once at the bounds of 32 bits. It is what is computed byte by byte in words of 64 bits,
none of which overflows, however long the run is. -/
theorem leadingInteger_exact (s : String) :
    (∃ blanks sign digits tail, SignedRun s.toList blanks sign digits tail) ∧
    (∀ blanks sign digits tail, SignedRun s.toList blanks sign digits tail →
      (leadingInteger s).toInt = max (-2 ^ 31) (min (signedValue sign digits) (2 ^ 31 - 1))) ∧
    wordInteger? (utf8 (dropBlank s.toList)) = some (leadingInteger s).toInt := by
  refine ⟨exists_signedRun s.toList, fun blanks sign digits tail h => ?_, ?_⟩
  · have hexact := h.toInt_leadingInteger
    rwa [String.ofList_toList] at hexact
  · exact wordInteger?_utf8 (dropBlank s.toList)

/-- A value far below the range, behind an ideographic space. -/
example : (leadingInteger "\u3000-99999999999999999999x").toInt = -2 ^ 31 := by decide +kernel

end DevConsole.Number
