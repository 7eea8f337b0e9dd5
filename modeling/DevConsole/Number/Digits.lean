/-!
# Decimal digits

Runs of the ASCII digits and the numbers they stand for, in both directions: `digitsValue` reads,
`digitChars` writes without leading zeros, and `paddedDigits` writes a given number of places.
-/

namespace DevConsole.Number

/-- The ASCII digits. -/
def isDigit (c : Char) : Bool := '0' ≤ c && c ≤ '9'

/-- The number a digit stands for. -/
def digitValue (c : Char) : Nat := c.toNat - '0'.toNat

/-- The digit for a number below ten. -/
def digitChar (n : Nat) : Char := Char.ofNat ('0'.toNat + n)

/-- The number a run of digits stands for. -/
def digitsValue (ds : List Char) : Nat := ds.foldl (fun n d => 10 * n + digitValue d) 0

/-- The digits of a number, without leading zeros. -/
def digitChars (n : Nat) : List Char :=
  if n < 10 then [digitChar n] else digitChars (n / 10) ++ [digitChar (n % 10)]

/-- The last `places` digits of a number, zeros in front where it has fewer. -/
def paddedDigits : Nat → Nat → List Char
  | 0, _ => []
  | places + 1, n => paddedDigits places (n / 10) ++ [digitChar (n % 10)]

/-- Takes a sign off the front. -/
def splitSign : List Char → List Char × List Char
  | '-' :: cs => (['-'], cs)
  | '+' :: cs => (['+'], cs)
  | cs => ([], cs)

/-- The text of a number. -/
def natText (n : Nat) : String := String.ofList (digitChars n)

/-! ### Reading what was written -/

theorem digitValue_digitChar {n : Nat} (h : n < 10) : digitValue (digitChar n) = n := by
  revert n; decide

theorem isDigit_digitChar {n : Nat} (h : n < 10) : isDigit (digitChar n) = true := by
  revert n; decide

@[simp] theorem digitsValue_nil : digitsValue [] = 0 := rfl

/-- The last digit counts once, and those before it ten times. -/
theorem digitsValue_concat (ds : List Char) (d : Char) :
    digitsValue (ds ++ [d]) = 10 * digitsValue ds + digitValue d := by
  simp [digitsValue]

theorem digitsValue_digitChars (n : Nat) : digitsValue (digitChars n) = n := by
  induction n using digitChars.induct with
  | case1 n h => rw [digitChars, if_pos h]; simp [digitsValue, digitValue_digitChar h]
  | case2 n h ih =>
    rw [digitChars, if_neg h, digitsValue_concat, ih, digitValue_digitChar (by omega)]
    omega

theorem digitChars_ne_nil (n : Nat) : digitChars n ≠ [] := by
  rw [digitChars]; split <;> simp

theorem isDigit_of_mem_digitChars {n : Nat} {c : Char} (h : c ∈ digitChars n) :
    isDigit c = true := by
  induction n using digitChars.induct with
  | case1 n hn =>
    rw [digitChars, if_pos hn, List.mem_singleton] at h
    exact h ▸ isDigit_digitChar hn
  | case2 n hn ih =>
    rw [digitChars, if_neg hn, List.mem_append, List.mem_singleton] at h
    rcases h with h | rfl
    · exact ih h
    · exact isDigit_digitChar (by omega)

theorem length_paddedDigits (places n : Nat) : (paddedDigits places n).length = places := by
  induction places generalizing n with
  | zero => rfl
  | succ places ih => simp [paddedDigits, ih]

/-- Reading the last digits of a number gives the number without the rest. -/
theorem digitsValue_paddedDigits (places n : Nat) :
    digitsValue (paddedDigits places n) = n % Nat.pow 10 places := by
  induction places generalizing n with
  | zero => exact (Nat.mod_one n).symm
  | succ places ih =>
    have hpow : Nat.pow 10 (places + 1) = 10 * Nat.pow 10 places := Nat.mul_comm _ _
    rw [paddedDigits, digitsValue_concat, ih, digitValue_digitChar (Nat.mod_lt _ (by decide)),
      hpow, Nat.mod_mul]
    omega

end DevConsole.Number
