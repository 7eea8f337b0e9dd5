import DevConsole.Number.Shortest
import DevConsole.Proofs.Text.Trimmed

/-!
# Numerals without an exponent

What is written for a number is an optional minus, digits, and a point with more digits for some of
them. Read as an integer such a text is its whole part (`leadingInteger_minus`), and read as a number
of binary32 it is the decimal it shows (`leadingSingle_whole`, `leadingSingle_point`). The integer that
is cut off at each digit is the exact one cut off at the end (`clamp_signed_cappedValue`).
-/

namespace DevConsole.Number

/-! ### Digits -/

theorem exists_digitChar {c : Char} (hc : isDigit c = true) : ∃ n < 10, c = digitChar n := by
  obtain ⟨hlow, hhigh⟩ := (Bool.and_eq_true _ _).mp hc
  have hlow' : 48 ≤ c.toNat := UInt32.le_iff_toNat_le.mp (Char.le_def.mp (of_decide_eq_true hlow))
  have hhigh' : c.toNat ≤ 57 := UInt32.le_iff_toNat_le.mp (Char.le_def.mp (of_decide_eq_true hhigh))
  refine ⟨c.toNat - 48, by omega, ?_⟩
  rw [digitChar, show '0'.toNat + (c.toNat - 48) = c.toNat by rw [show '0'.toNat = 48 from rfl]; omega,
    Char.ofNat_toNat]

/-- What holds of the ten digits holds of every digit. -/
theorem of_isDigit {p : Char → Bool} (h : ∀ n < 10, p (digitChar n) = true) {c : Char}
    (hc : isDigit c = true) : p c = true := by
  obtain ⟨n, hn, rfl⟩ := exists_digitChar hc
  exact h n hn

theorem digitsValue_append (as bs : List Char) :
    digitsValue (as ++ bs) = digitsValue as * Nat.pow 10 bs.length + digitsValue bs := by
  induction bs using List.reverseRecOn with
  | nil => simp
  | append_singleton bs b ih =>
    have hpow : Nat.pow 10 (bs.length + 1) = Nat.pow 10 bs.length * 10 := rfl
    rw [← List.append_assoc, digitsValue_concat, ih, digitsValue_concat, List.length_append,
      List.length_singleton, hpow, ← Nat.mul_assoc]
    omega

/-- **Cutting off at each digit is cutting off at the end.** -/
theorem cappedValue_eq (ds : List Char) : cappedValue ds = min (digitsValue ds) 0x80000000 := by
  induction ds using List.reverseRecOn with
  | nil => rfl
  | append_singleton ds d ih =>
    rw [digitsValue_concat]
    unfold cappedValue at ih ⊢
    rw [List.foldl_append, ih, List.foldl_cons, List.foldl_nil]
    omega

theorem clamp_signed_cappedValue (sign ds : List Char) :
    clamp (signed sign (cappedValue ds)) = clamp (signed sign (digitsValue ds)) := by
  rw [cappedValue_eq, clamp, clamp]
  congr 1
  unfold signed
  split <;> omega

theorem all_isDigit_paddedDigits (places n : Nat) : (paddedDigits places n).all isDigit = true := by
  induction places generalizing n with
  | zero => rfl
  | succ places ih =>
    rw [paddedDigits, List.all_append, ih, List.all_cons, isDigit_digitChar (Nat.mod_lt _ (by decide))]
    rfl

theorem mem_pointChars {n places : Nat} {c : Char} (hc : c ∈ pointChars n places) :
    c = '.' ∨ isDigit c = true := by
  rcases List.mem_append.mp hc with hc | hc
  · exact .inr (isDigit_of_mem_digitChars hc)
  · rcases List.mem_cons.mp hc with hc | hc
    · exact .inl hc
    · exact .inr (List.all_eq_true.mp (all_isDigit_paddedDigits _ _) c hc)

/-! ### A sign, digits, and what follows -/

/-- The sign that is written. -/
def minus (negative : Bool) : List Char := if negative then ['-'] else []

theorem mem_minus {negative : Bool} {c : Char} (hc : c ∈ minus negative) : c = '-' := by
  cases negative with
  | true => exact List.mem_singleton.mp hc
  | false => cases hc

theorem minus_beq (negative : Bool) : (minus negative == ['-']) = negative := by
  cases negative <;> rfl

theorem signed_minus (negative : Bool) (n : Nat) :
    signed (minus negative) n = if negative then -(n : Int) else n := by
  cases negative <;> rfl

theorem digitChars_eq_cons (n : Nat) :
    ∃ d ds, digitChars n = d :: ds ∧ isDigit d = true := by
  obtain ⟨d, ds, hcons⟩ := List.exists_cons_of_ne_nil (digitChars_ne_nil n)
  exact ⟨d, ds, hcons, isDigit_of_mem_digitChars (hcons ▸ List.mem_cons_self)⟩

theorem splitSign_minus (negative : Bool) (n : Nat) (tail : List Char) :
    splitSign (minus negative ++ (digitChars n ++ tail)) = (minus negative, digitChars n ++ tail) := by
  cases negative with
  | true => rfl
  | false =>
    obtain ⟨d, ds, hcons, hd⟩ := digitChars_eq_cons n
    rw [hcons]
    show splitSign (d :: (ds ++ tail)) = _
    unfold splitSign
    split
    · next h => exact absurd ((List.cons.inj h).1 ▸ hd) (by decide)
    · next h => exact absurd ((List.cons.inj h).1 ▸ hd) (by decide)
    · rfl

theorem dropBlank_minus (negative : Bool) (n : Nat) (tail : List Char) :
    Text.dropBlank (minus negative ++ (digitChars n ++ tail)) =
      minus negative ++ (digitChars n ++ tail) := by
  refine Text.dropBlank_eq_self fun c hc => ?_
  cases negative with
  | true => exact Option.some.inj hc ▸ rfl
  | false =>
    obtain ⟨d, ds, hcons, hd⟩ := digitChars_eq_cons n
    rw [hcons] at hc
    obtain rfl := Option.some.inj hc
    have hbare := of_isDigit (p := fun c => !Text.isBlank c) (by decide) hd
    simpa using hbare

section tail
variable {tail : List Char} (htail : ∀ c, tail.head? = some c → isDigit c = false)
include htail

theorem takeWhile_digitChars (n : Nat) : (digitChars n ++ tail).takeWhile isDigit = digitChars n := by
  rw [List.takeWhile_append_of_pos fun _ hc => isDigit_of_mem_digitChars hc]
  cases tail with
  | nil => exact List.append_nil _
  | cons c cs => rw [List.takeWhile_cons_of_neg (by simp [htail c rfl]), List.append_nil]

theorem dropWhile_digitChars (n : Nat) : (digitChars n ++ tail).dropWhile isDigit = tail := by
  rw [List.dropWhile_append_of_pos fun _ hc => isDigit_of_mem_digitChars hc]
  cases tail with
  | nil => rfl
  | cons c cs => exact List.dropWhile_cons_of_neg (by simp [htail c rfl])

/-- **Read as an integer the text is its whole part.** -/
theorem leadingInteger_minus (negative : Bool) (n : Nat) :
    leadingInteger (String.ofList (minus negative ++ (digitChars n ++ tail))) =
      clamp (if negative then -(n : Int) else n) := by
  unfold leadingInteger
  rw [String.toList_ofList, dropBlank_minus, splitSign_minus]
  dsimp only
  rw [takeWhile_digitChars htail, clamp_signed_cappedValue, digitsValue_digitChars, signed_minus]

end tail

theorem takeWhile_digits {ds : List Char} (hds : ds.all isDigit = true) : ds.takeWhile isDigit = ds :=
  List.takeWhile_eq_self_iff.mpr (List.all_eq_true.mp hds)

/-! ### What is written -/

/-- A point with digits behind it, or nothing: what may follow the whole digits. -/
def pointTail : Option (List Char) → List Char
  | none => []
  | some ds => '.' :: ds

theorem head?_pointTail (ds : Option (List Char)) :
    ∀ c, (pointTail ds).head? = some c → isDigit c = false := by
  intro c hc
  cases ds with
  | none => cases hc
  | some ds => exact Option.some.inj hc ▸ rfl

theorem leadingFraction_pointTail {ds : Option (List Char)}
    (hds : (ds.getD []).all isDigit = true) :
    leadingFraction true (pointTail ds) = pointTail ds := by
  cases ds with
  | none => rfl
  | some ds => simpa [pointTail, leadingFraction] using hds

/-- The text is all one numeral. -/
theorem leadingNumeral_minus (negative : Bool) (n : Nat) {ds : Option (List Char)}
    (hds : (ds.getD []).all isDigit = true) :
    leadingNumeral (minus negative ++ (digitChars n ++ pointTail ds)) =
      minus negative ++ (digitChars n ++ pointTail ds) := by
  have hwhole : decide (digitChars n ≠ []) = true := decide_eq_true (digitChars_ne_nil n)
  unfold leadingNumeral
  rw [splitSign_minus]
  dsimp only
  rw [takeWhile_digitChars (head?_pointTail ds), dropWhile_digitChars (head?_pointTail ds), hwhole,
    leadingFraction_pointTail hds, if_neg fun h => digitChars_ne_nil n h.1, List.drop_length]
  simp [leadingExponent]

theorem ofChars?_minus (negative : Bool) (n : Nat) {ds : Option (List Char)}
    (hds : (ds.getD []).all isDigit = true) :
    Decimal.ofChars? (minus negative ++ (digitChars n ++ pointTail ds)) =
      some ⟨negative, digitsValue (digitChars n ++ ds.getD []), -((ds.getD []).length : Int)⟩ := by
  unfold Decimal.ofChars?
  rw [splitSign_minus]
  dsimp only
  rw [takeWhile_digitChars (head?_pointTail ds), dropWhile_digitChars (head?_pointTail ds)]
  cases ds with
  | none => simp [pointTail, digitChars_ne_nil, exponentOf?, minus_beq]
  | some ds =>
    have htake : ds.takeWhile isDigit = ds := takeWhile_digits hds
    have hdrop : ds.dropWhile isDigit = [] := List.dropWhile_eq_nil_iff.mpr (List.all_eq_true.mp hds)
    simp [pointTail, digitChars_ne_nil, exponentOf?, minus_beq, htake, hdrop]

theorem leadingSingle_minus (negative : Bool) (n : Nat) (ds : Option (List Char))
    (hds : (ds.getD []).all isDigit = true) :
    leadingSingle (String.ofList (minus negative ++ (digitChars n ++ pointTail ds))) =
      Decimal.toSingle
        ⟨negative, digitsValue (digitChars n ++ ds.getD []), -((ds.getD []).length : Int)⟩ := by
  unfold leadingSingle
  rw [String.toList_ofList, dropBlank_minus, leadingNumeral_minus negative n hds,
    ofChars?_minus negative n hds]
  rfl

theorem leadingInteger_whole (negative : Bool) (n : Nat) :
    leadingInteger (String.ofList (minus negative ++ digitChars n)) =
      clamp (if negative then -(n : Int) else n) := by
  have hread := leadingInteger_minus (head?_pointTail none) negative n
  rwa [pointTail, List.append_nil] at hread

theorem leadingInteger_point (negative : Bool) (n places : Nat) :
    leadingInteger (String.ofList (minus negative ++ pointChars n places)) =
      clamp (if negative then -((n / Nat.pow 10 places : Nat) : Int) else (n / Nat.pow 10 places : Nat)) :=
  leadingInteger_minus (head?_pointTail (some _)) negative _

/-- **Read as a number of binary32 a whole number is that number.** -/
theorem leadingSingle_whole (negative : Bool) (n : Nat) :
    leadingSingle (String.ofList (minus negative ++ digitChars n)) =
      Decimal.toSingle ⟨negative, n, 0⟩ := by
  have hread := leadingSingle_minus negative n none rfl
  rwa [pointTail, Option.getD_none, List.append_nil, digitsValue_digitChars] at hread

/-- **Digits with a point are read as the decimal they show.** -/
theorem leadingSingle_point (negative : Bool) (n places : Nat) :
    leadingSingle (String.ofList (minus negative ++ pointChars n places)) =
      Decimal.toSingle ⟨negative, n, -(places : Int)⟩ := by
  have hread := leadingSingle_minus negative (n / Nat.pow 10 places)
    (some (paddedDigits places (n % Nat.pow 10 places))) (all_isDigit_paddedDigits _ _)
  have hvalue : digitsValue (digitChars (n / Nat.pow 10 places) ++
      paddedDigits places (n % Nat.pow 10 places)) = n := by
    rw [digitsValue_append, digitsValue_digitChars, length_paddedDigits, digitsValue_paddedDigits,
      Nat.mod_mod]
    exact Nat.div_add_mod' n _
  rwa [Option.getD_some, hvalue, length_paddedDigits] at hread

end DevConsole.Number
