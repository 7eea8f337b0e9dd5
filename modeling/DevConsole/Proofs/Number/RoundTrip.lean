import DevConsole.Proofs.Number.Shortest

/-!
# Numbers and their texts

The two views that a variable has of a number beside its text are read back from the text. A number
of binary32 comes back bit for bit, and as an integer it is its value without the fraction, kept in
range (`toInt_truncate`). An integer comes back as it was, and as a number of binary32 it is the one
that the integer is converted to (`leadingSingle_integerText`), which is the nearest
(`isRounded_ofInteger`). The texts of the numbers that are not finite are words and read as zero
(`leading_text_of_not_finite`).
-/

namespace DevConsole.Number

/-! ### Without the fraction -/

/-- A rational without its fraction. -/
def towardZero (q : ℚ) : ℤ := if q < 0 then ⌈q⌉ else ⌊q⌋

theorem towardZero_of_nonneg {q : ℚ} (hq : 0 ≤ q) : towardZero q = ⌊q⌋ := if_neg (not_lt.mpr hq)

theorem towardZero_neg (q : ℚ) : towardZero (-q) = -towardZero q := by
  rcases lt_trichotomy q 0 with hq | rfl | hq
  · rw [towardZero, towardZero, if_neg (by linarith), if_pos hq, Int.floor_neg]
  · rfl
  · rw [towardZero, towardZero, if_pos (by linarith), if_neg (by linarith), Int.ceil_neg]

theorem toInt_clamp (n : ℤ) : (clamp n).toInt = max (-2 ^ 31) (min n (2 ^ 31 - 1)) := by
  rw [clamp, Int32.toInt_ofInt_of_le (by omega) (by omega)]
  norm_num

theorem clamp_toInt (i : Int32) : clamp i.toInt = i := by
  have hlow := Int32.le_toInt i
  have hhigh := Int32.toInt_lt i
  rw [clamp, min_eq_left (by omega), max_eq_right (by omega), Int32.ofInt_toInt]

namespace Single

theorem towardZero_value (x : Single) : towardZero x.value =
    if x.isNegative then -((x.units / unitsPerOne : ℕ) : ℤ) else (x.units / unitsPerOne : ℕ) := by
  have hwhole : towardZero (x.units / unitsPerOne) = (x.units / unitsPerOne : ℕ) := by
    rw [towardZero_of_nonneg (by positivity), Rat.floor_natCast_div_natCast, Int.natCast_div]
  rw [value]
  cases x.isNegative with
  | false => exact hwhole
  | true => rw [if_pos rfl, if_pos rfl, neg_div, towardZero_neg, hwhole]

/-- **The integer view of a finite number is its value without the fraction**, kept in range. -/
theorem toInt_truncate {x : Single} (h : x.isFinite = true) :
    x.truncate.toInt = max (-2 ^ 31) (min (towardZero x.value) (2 ^ 31 - 1)) := by
  rw [truncate_eq h, toInt_clamp, towardZero_value]

end Single

/-! ### Integers -/

theorem integerText_eq (i : Int32) :
    integerText i = String.ofList (minus (i.toInt < 0) ++ digitChars i.toInt.natAbs) := by
  unfold integerText
  dsimp only
  by_cases hi : i.toInt < 0
  · rw [if_pos hi, decide_eq_true hi]; rfl
  · rw [if_neg hi, decide_eq_false hi]; rfl

/-- **The text of an integer is read as the integer**, also where it is only the start that is read. -/
theorem leadingInteger_integerText (i : Int32) : leadingInteger (integerText i) = i := by
  have hvalue : (if decide (i.toInt < 0) = true then -(i.toInt.natAbs : ℤ) else i.toInt.natAbs) =
      i.toInt := by
    simp only [decide_eq_true_eq]
    omega
  rw [integerText_eq, leadingInteger_whole, hvalue, clamp_toInt]

section ofInteger
open Single

theorem ofInteger_isNearest (i : Int32) :
    IsNearest (i.toInt.natAbs * unitsPerOne) (nearestMagnitude i.toInt.natAbs 1) := by
  simpa using isNearest_nearestMagnitude i.toInt.natAbs one_pos

/-- **The text of an integer is read as the number that the integer is converted to.** -/
theorem leadingSingle_integerText (i : Int32) : leadingSingle (integerText i) = ofInteger i := by
  rw [integerText_eq, leadingSingle_whole]
  obtain ⟨m, hm, hnearest⟩ := Decimal.exists_isNearest ⟨i.toInt < 0, i.toInt.natAbs, 0⟩
  rw [Decimal.magnitude, zpow_zero, mul_one] at hnearest
  rw [hm, hnearest.unique (ofInteger_isNearest i)]
  rfl

/-- What is below the half of infinity does not round to infinity. -/
theorem lt_infinityMagnitude {q : ℚ} {m : ℕ} (h : IsNearest (q * unitsPerOne) m) (hnonneg : 0 ≤ q)
    (hq : q < 2 ^ 127) : m < infinityMagnitude := by
  have hpos : (0 : ℚ) < unitsPerOne := by exact_mod_cast unitsPerOne_pos
  refine lt_of_le_of_ne h.le fun heq => ?_
  have hnear := h.near 0 (Nat.zero_le _)
  rw [heq, unitsAt_infinity, show unitsAt 0 = 0 by norm_num [unitsAt], Nat.cast_zero, Nat.cast_mul,
    ← sub_mul, sub_zero, abs_mul, abs_mul, abs_of_pos hpos, mul_le_mul_iff_left₀ hpos, abs_sub_comm,
    abs_of_nonneg hnonneg, Nat.cast_pow, Nat.cast_ofNat] at hnear
  have hdistance := le_abs_self (2 ^ 128 - q)
  linarith

/-- **The number that an integer is converted to is the integer rounded.** -/
theorem isRounded_ofInteger (i : Int32) : IsRounded i.toInt (ofInteger i) := by
  have hnearest := ofInteger_isNearest i
  rw [Nat.cast_natAbs, Int.cast_abs] at hnearest
  have habs : |(i.toInt : ℚ)| ≤ 2 ^ 31 := by
    have hlow := Int32.le_toInt i
    have hhigh := Int32.toInt_lt i
    exact_mod_cast abs_le.mpr ⟨hlow, (by omega : i.toInt ≤ 2 ^ 31)⟩
  have hrounded := hnearest.isRounded
    (lt_infinityMagnitude hnearest (abs_nonneg _) (habs.trans_lt (by norm_num)))
  simpa [ofInteger, nearest] using hrounded

end ofInteger

/-! ### Infinite numbers and NaN -/

namespace Single

theorem text_of_not_finite {x : Single} (h : x.isFinite = false) :
    x.text = "NaN" ∨ x.text = "inf" ∨ x.text = "-inf" := by
  have hword : (if x.isFinite = true then x.digits else "inf".toList) = "inf".toList :=
    if_neg (Bool.eq_false_iff.mp h)
  unfold text
  rw [hword]
  cases x.isNaN <;> cases x.isNegative <;> decide

/-- **A number that is not finite is not read back**: none of their texts starts with a digit. -/
theorem leading_text_of_not_finite {x : Single} (h : x.isFinite = false) :
    leadingSingle x.text = zero ∧ leadingInteger x.text = 0 := by
  rcases text_of_not_finite h with htext | htext | htext <;> rw [htext] <;> decide

end Single

/-! ### Both kinds of numbers -/

open Single in
/-- **The text of a number gives back the number in both views.** A finite number of binary32 is read
as itself, from a text without an exponent, and as an integer it is its value without the fraction,
kept in range. An integer is read as itself, and as a number of binary32 it is rounded to the nearest
one. -/
theorem texts_read_back :
    (∀ x : Single, x.isFinite = true →
      leadingSingle x.text = x ∧
      (∀ c ∈ x.text.toList, isExponentMark c = false) ∧
      (leadingInteger x.text).toInt = max (-2 ^ 31) (min (towardZero x.value) (2 ^ 31 - 1))) ∧
    ∀ i : Int32, leadingInteger (integerText i) = i ∧
      IsRounded i.toInt (leadingSingle (integerText i)) := by
  refine ⟨fun x h => ⟨leadingSingle_text h, fun c hc => ?_, ?_⟩,
    fun i => ⟨leadingInteger_integerText i, ?_⟩⟩
  · rcases mem_text h hc with rfl | rfl | hdigit
    · rfl
    · rfl
    · simpa using of_isDigit (p := fun c => !isExponentMark c) (by decide) hdigit
  · rw [leadingInteger_text h, toInt_truncate h]
  · rw [leadingSingle_integerText]
    exact isRounded_ofInteger i

/-- At the number nearest to one tenth and at an integer with more digits than such a number has. -/
theorem texts_read_back_tenth :
    leadingSingle "0.1" = ⟨0x3dcccccd⟩ ∧ leadingInteger "0.1" = 0 ∧
      leadingInteger "16777217" = 16777217 := by
  have htext : Single.text ⟨0x3dcccccd⟩ = "0.1" := by decide +kernel
  have hinteger : integerText 16777217 = "16777217" := by decide +kernel
  obtain ⟨hback, -, hwhole⟩ := texts_read_back.1 ⟨0x3dcccccd⟩ (by decide +kernel)
  have hfloor : towardZero (Single.value ⟨0x3dcccccd⟩) = 0 := by decide +kernel
  rw [htext] at hback hwhole
  rw [hfloor] at hwhole
  refine ⟨hback, Int32.toInt_inj.mp (hwhole.trans (by decide)), ?_⟩
  rw [← hinteger]
  exact (texts_read_back.2 16777217).1

end DevConsole.Number
