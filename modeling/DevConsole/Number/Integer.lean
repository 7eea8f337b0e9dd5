import DevConsole.Number.Digits
import DevConsole.Text.Blank

/-!
# Integers of 32 bits in text

`leadingInteger` reads what a text starts with and never fails: it stops at the first character
that is no digit, and a number out of range becomes the nearest one in range. `integer?` reads a
text as a whole and refuses all else.
-/

namespace DevConsole.Number

/-- The nearest integer of 32 bits. -/
def clamp (n : Int) : Int32 := Int32.ofInt (max (-0x80000000) (min n 0x7FFFFFFF))

/-- The value of a run of digits, cut off at each step one above the largest integer of 32 bits. -/
def cappedValue (ds : List Char) : Nat :=
  ds.foldl (fun n d => min (10 * n + digitValue d) 0x80000000) 0

/-- The value with the sign applied. -/
def signed (sign : List Char) (n : Nat) : Int := if sign = ['-'] then -n else n

/-- The integer that the characters start with, after white space; 0 if there is none. -/
def leadingInteger (s : String) : Int32 :=
  let (sign, rest) := splitSign (Text.dropBlank s.toList)
  clamp (signed sign (cappedValue (rest.takeWhile isDigit)))

/-- The integer that is the whole text. -/
def integer? (s : String) : Option Int32 :=
  let (sign, ds) := splitSign s.toList
  let n := signed sign (digitsValue ds)
  if ds ≠ [] ∧ ds.all isDigit ∧ -0x80000000 ≤ n ∧ n < 0x80000000 then some (Int32.ofInt n) else none

/-- The text of an integer. -/
def integerText (i : Int32) : String :=
  let n := i.toInt
  String.ofList (if n < 0 then '-' :: digitChars n.natAbs else digitChars n.natAbs)

/-! ### Reading what was written -/

theorem splitSign_digitChars (n : Nat) : splitSign (digitChars n) = ([], digitChars n) := by
  unfold splitSign
  split
  · next h => exact absurd (isDigit_of_mem_digitChars (h ▸ List.mem_cons_self)) (by decide)
  · next h => exact absurd (isDigit_of_mem_digitChars (h ▸ List.mem_cons_self)) (by decide)
  · rfl

/-- **The text of an integer is read as the integer.** -/
theorem integer?_integerText (i : Int32) : integer? (integerText i) = some i := by
  have hlow : -0x80000000 ≤ i.toInt := Int32.le_toInt i
  have hhigh : i.toInt < 0x80000000 := Int32.toInt_lt i
  have hdigits : (digitChars i.toInt.natAbs).all isDigit = true :=
    List.all_eq_true.mpr fun c hc => isDigit_of_mem_digitChars hc
  unfold integer? integerText
  dsimp only
  rw [String.toList_ofList]
  split
  · next hneg =>
    have hvalue : -((i.toInt.natAbs : Nat) : Int) = i.toInt := by omega
    simp only [splitSign, signed, if_true, digitsValue_digitChars, hvalue]
    rw [if_pos ⟨digitChars_ne_nil _, hdigits, hlow, hhigh⟩, Int32.ofInt_toInt]
  · next hpos =>
    have hvalue : ((i.toInt.natAbs : Nat) : Int) = i.toInt := by omega
    have hsign : ([] : List Char) ≠ ['-'] := by simp
    rw [splitSign_digitChars]
    simp only [signed, if_neg hsign, digitsValue_digitChars, hvalue]
    rw [if_pos ⟨digitChars_ne_nil _, hdigits, hlow, hhigh⟩, Int32.ofInt_toInt]

/-- The text of an integer is made of digits and the minus sign. -/
theorem mem_integerText {i : Int32} {c : Char} (h : c ∈ (integerText i).toList) :
    c = '-' ∨ isDigit c = true := by
  unfold integerText at h
  dsimp only at h
  rw [String.toList_ofList] at h
  split at h
  · rcases List.mem_cons.mp h with h | h
    · exact .inl h
    · exact .inr (isDigit_of_mem_digitChars h)
  · exact .inr (isDigit_of_mem_digitChars h)

end DevConsole.Number
