import DevConsole.Proofs.Number.Nearest
import DevConsole.Proofs.Number.Written
import Mathlib.Data.Rat.Floor

/-!
# Texts of numbers are read back

The decimal chosen for a number that is not whole rounds to the number (`shortest_isNearest`). None
with fewer places does (`shortest_fewest`), and none with as many that does is closer to the number
(`shortest_closest`): what rounds to the number is an interval around its value, so on each grid it is
enough to try the two points next to the value. The decimal has the whole part of the number, for the
next whole number is one that stands for itself (`shortest_div`). So the text of a finite number is
read as the number, bit for bit (`leadingSingle_text`), and read as an integer it is the number without
its fraction (`leadingInteger_text`).
-/

namespace DevConsole.Number

namespace Single

variable {x : Single}

/-! ### The grids -/

/-- The point `n / 10 ^ places` of a grid, counted in the least positive number. -/
def point (places n : ℕ) : ℚ := n / 10 ^ places * unitsPerOne

/-- The last point of a grid that is not above the value. -/
def below (x : Single) (places : ℕ) : ℕ := x.units * Nat.pow 10 places / unitsPerOne

theorem point_mono (places : ℕ) : Monotone (point places) := by
  intro n k h
  unfold point
  gcongr

theorem readsBack_iff {places n : ℕ} :
    x.readsBack places n = true ↔ IsNearest (point places n) x.magnitude := by
  have hpos : 0 < Nat.pow 10 places := Nat.pow_pos (by norm_num)
  rw [readsBack, beq_iff_eq, nearestMagnitude_eq_iff hpos, Nat.pow_eq, Nat.cast_pow, Nat.cast_ofNat,
    point]

/-- A finite number is nearest to its own value. -/
theorem isNearest_units (h : x.isFinite = true) : IsNearest x.units x.magnitude := by
  rw [units_eq]
  exact isNearest_unitsAt (isFinite_iff.mp h).le

/-- Where the value lies between two points of a grid. -/
theorem units_eq_point (x : Single) (places : ℕ) : (x.units : ℚ) =
    point places (x.below places) + (x.units * Nat.pow 10 places % unitsPerOne : ℕ) / 10 ^ places := by
  have hdivision : ((x.below places * unitsPerOne + x.units * Nat.pow 10 places % unitsPerOne : ℕ) : ℚ) =
      (x.units * Nat.pow 10 places : ℕ) := by
    rw [below, Nat.div_add_mod']
  rw [point, div_mul_eq_mul_div, ← add_div, eq_div_iff (by positivity)]
  rw [Nat.cast_add, Nat.cast_mul, Nat.cast_mul, Nat.pow_eq, Nat.cast_pow, Nat.cast_ofNat] at hdivision
  exact hdivision.symm

theorem point_succ (places n : ℕ) :
    point places (n + 1) = point places n + (unitsPerOne : ℚ) / 10 ^ places := by
  rw [point, point, Nat.cast_succ]
  ring

theorem point_below_le (x : Single) (places : ℕ) : point places (x.below places) ≤ x.units := by
  rw [units_eq_point x places]
  exact le_add_of_nonneg_right (by positivity)

theorem units_le_above (x : Single) (places : ℕ) : (x.units : ℚ) ≤ point places (x.below places + 1) := by
  rw [units_eq_point x places, point_succ]
  have hlt := Nat.mod_lt (x.units * Nat.pow 10 places) unitsPerOne_pos
  gcongr

/-- A point up to the value can be replaced by the last one, and a point above by the first one. -/
theorem readsBack_neighbour {places k : ℕ} (h : x.readsBack places k = true) :
    (k ≤ x.below places ∧ x.readsBack places (x.below places) = true) ∨
      (x.below places + 1 ≤ k ∧ x.readsBack places (x.below places + 1) = true) := by
  rw [readsBack_iff, readsBack_iff]
  have hnearest := readsBack_iff.mp h
  have hunits : (unitsAt x.magnitude : ℚ) = x.units := by rw [units_eq]
  rcases Nat.lt_or_ge (x.below places) k with hk | hk
  · refine .inr ⟨hk, hnearest.between (.inl ⟨?_, point_mono places hk⟩)⟩
    exact hunits ▸ x.units_le_above places
  · refine .inl ⟨hk, hnearest.between (.inr ⟨point_mono places hk, ?_⟩)⟩
    exact hunits ▸ x.point_below_le places

/-- The definition, stated of the function as a whole: at an argument the match would be evaluated
before its cases are compared. -/
theorem onGrid?_def : onGrid? = fun x places =>
    let scaled := x.units * Nat.pow 10 places
    let below := scaled / unitsPerOne
    let above := below + 1
    match x.readsBack places below, x.readsBack places above with
    | true, true => some (if 2 * (scaled % unitsPerOne) < unitsPerOne then below else above)
    | true, false => some below
    | false, true => some above
    | false, false => none := by rfl

section neighbours
variable {p : ℕ → Bool} {low high : ℕ} {nearer : Prop} [Decidable nearer]

/-- Of two neighbours the one that passes a test, or the nearer one if both do. -/
theorem of_neighbours {n : ℕ}
    (h : (match p low, p high with
      | true, true => some (if nearer then low else high)
      | true, false => some low
      | false, true => some high
      | false, false => none) = some n) :
    (n = low ∧ p low = true ∧ (p high = true → nearer)) ∨
      (n = high ∧ p high = true ∧ (p low = true → ¬ nearer)) := by
  split at h
  · next hlow hhigh =>
    split at h
    · next hnear => exact .inl ⟨(Option.some.inj h).symm, hlow, fun _ => hnear⟩
    · next hfar => exact .inr ⟨(Option.some.inj h).symm, hhigh, fun _ => hfar⟩
  · next hlow hhigh => exact .inl ⟨(Option.some.inj h).symm, hlow, fun hp => by simp [hp] at hhigh⟩
  · next hlow hhigh => exact .inr ⟨(Option.some.inj h).symm, hhigh, fun hp => by simp [hp] at hlow⟩
  · cases h

theorem neighbours_eq_none
    (h : (match p low, p high with
      | true, true => some (if nearer then low else high)
      | true, false => some low
      | false, true => some high
      | false, false => none) = none) : p low = false ∧ p high = false := by
  split at h
  · cases h
  · cases h
  · cases h
  · next hlow hhigh => exact ⟨hlow, hhigh⟩

end neighbours

section onGrid
variable {places n : ℕ}

/-- The point that stands for a number is the neighbour of its value that reads back, or the nearer one
if both do. -/
theorem onGrid?_cases (h : x.onGrid? places = some n) :
    (n = x.below places ∧ x.readsBack places (x.below places) = true ∧
      (x.readsBack places (x.below places + 1) = true →
        2 * (x.units * Nat.pow 10 places % unitsPerOne) < unitsPerOne)) ∨
    (n = x.below places + 1 ∧ x.readsBack places (x.below places + 1) = true ∧
      (x.readsBack places (x.below places) = true →
        ¬ 2 * (x.units * Nat.pow 10 places % unitsPerOne) < unitsPerOne)) := by
  rw [onGrid?_def] at h
  -- in the terms of the definition first, for `below` must not be compared inside the match
  have hneighbours := of_neighbours h
  exact hneighbours

/-- The point that stands for a number is next to its value and reads back. -/
theorem of_onGrid? (h : x.onGrid? places = some n) :
    (n = x.below places ∨ n = x.below places + 1) ∧ x.readsBack places n = true := by
  rcases onGrid?_cases h with ⟨rfl, hback, -⟩ | ⟨rfl, hback, -⟩
  · exact ⟨.inl rfl, hback⟩
  · exact ⟨.inr rfl, hback⟩

/-- If no point stands for a number then none reads back. -/
theorem readsBack_of_onGrid?_eq_none (h : x.onGrid? places = none) (k : ℕ) :
    x.readsBack places k = false := by
  rw [onGrid?_def] at h
  obtain ⟨hlow, hhigh⟩ := neighbours_eq_none h
  refine Bool.eq_false_iff.mpr fun hback => ?_
  rcases readsBack_neighbour hback with ⟨-, hneighbour⟩ | ⟨-, hneighbour⟩
  · exact Bool.false_ne_true (hlow.symm.trans hneighbour)
  · exact Bool.false_ne_true (hhigh.symm.trans hneighbour)

/-- **No point that reads back is closer to the value** than the one that stands for it. -/
theorem onGrid?_closest (h : x.onGrid? places = some n) {k : ℕ} (hk : x.readsBack places k = true) :
    |x.units - point places n| ≤ |x.units - point places k| := by
  have hlow := x.point_below_le places
  have hhigh := x.units_le_above places
  have hvalue := x.units_eq_point places
  -- the distances to the neighbours, with the remainder of the division in the place of the value
  have hnearer : 2 * (x.units * Nat.pow 10 places % unitsPerOne) < unitsPerOne ↔
      x.units - point places (x.below places) < point places (x.below places + 1) - x.units := by
    rw [point_succ, hvalue, add_sub_cancel_left, add_sub_add_left_eq_sub, ← sub_div,
      div_lt_div_iff_of_pos_right (by positivity), lt_sub_iff_add_lt, ← two_mul]
    exact_mod_cast Iff.rfl
  rcases readsBack_neighbour hk with ⟨hle, hneighbour⟩ | ⟨hle, hneighbour⟩ <;>
    have hmono := point_mono places hle
  · rw [abs_of_nonneg (show (0 : ℚ) ≤ x.units - point places k by linarith)]
    rcases onGrid?_cases h with ⟨rfl, -, -⟩ | ⟨rfl, -, hfar⟩
    · rw [abs_of_nonneg (by linarith)]
      linarith
    · have hfar := mt hnearer.mpr (hfar hneighbour)
      rw [abs_of_nonpos (by linarith)]
      linarith
  · rw [abs_of_nonpos (show x.units - point places k ≤ (0 : ℚ) by linarith)]
    rcases onGrid?_cases h with ⟨rfl, -, hnear⟩ | ⟨rfl, -, -⟩
    · have hnear := hnearer.mp (hnear hneighbour)
      rw [abs_of_nonneg (by linarith)]
      linarith
    · rw [abs_of_nonpos (by linarith)]
      linarith

end onGrid

/-! ### The chosen decimal -/

/-- The chosen decimal is the point of a grid that stands for the number where none does on the grids
before, or it is the value itself on the last grid. -/
theorem shortest_cases (x : Single) :
    (x.onGrid? x.shortest.2 = some x.shortest.1 ∨ x.shortest = (x.units * 5 ^ 149, 149)) ∧
      ∀ places < x.shortest.2, x.onGrid? places = none := by
  unfold shortest
  cases hfirst : (List.range 149).findSome? fun places => (x.onGrid? places).map (·, places) with
  | none =>
    refine ⟨.inr rfl, fun places hplaces => ?_⟩
    have hnone := List.findSome?_eq_none_iff.mp hfirst places (List.mem_range.mpr hplaces)
    exact Option.map_eq_none_iff.mp hnone
  | some p =>
    obtain ⟨first, places, last, hrange, hplaces, hbefore⟩ := List.findSome?_eq_some_iff.mp hfirst
    obtain ⟨n, hn, rfl⟩ := Option.map_eq_some_iff.mp hplaces
    rw [List.range_eq_range', List.range'_eq_append_iff] at hrange
    obtain ⟨count, -, rfl, hlast⟩ := hrange
    obtain ⟨rfl, -, -⟩ := List.range'_eq_cons_iff.mp hlast.symm
    refine ⟨.inl hn, fun k hk => Option.map_eq_none_iff.mp (hbefore k ?_)⟩
    rw [Option.getD_some, Nat.mul_one] at hk
    exact List.mem_range'_1.mpr ⟨Nat.zero_le k, hk⟩

/-- The last grid has a point at the value. -/
theorem point_exact (x : Single) : point 149 (x.units * 5 ^ 149) = x.units := by
  rw [point, unitsPerOne, Nat.pow_eq, Nat.cast_mul, Nat.cast_pow, Nat.cast_pow, Nat.cast_ofNat,
    Nat.cast_ofNat, show (10 : ℚ) = 5 * 2 by norm_num, mul_pow]
  field_simp

/-- **The chosen decimal rounds to the number.** -/
theorem shortest_isNearest (h : x.isFinite = true) :
    IsNearest (point x.shortest.2 x.shortest.1) x.magnitude := by
  rcases x.shortest_cases.1 with hgrid | hexact
  · exact readsBack_iff.mp (of_onGrid? hgrid).2
  · rw [hexact, point_exact]
    exact isNearest_units h

/-- **No decimal with fewer places rounds to the number.** -/
theorem shortest_fewest {places : ℕ} (h : places < x.shortest.2) (n : ℕ) :
    ¬ IsNearest (point places n) x.magnitude := by
  rw [← readsBack_iff, Bool.not_eq_true]
  exact readsBack_of_onGrid?_eq_none (x.shortest_cases.2 places h) n

/-- **No decimal with as many places that rounds to the number is closer to it.** -/
theorem shortest_closest {n : ℕ} (h : IsNearest (point x.shortest.2 n) x.magnitude) :
    |x.units - point x.shortest.2 x.shortest.1| ≤ |x.units - point x.shortest.2 n| := by
  rcases x.shortest_cases.1 with hgrid | hexact
  · exact onGrid?_closest hgrid (readsBack_iff.mpr h)
  · rw [hexact, point_exact, sub_self, abs_zero]
    exact abs_nonneg _

/-! ### The whole part -/

/-- The whole numbers up to the first one with a gap after it are numbers of binary32. -/
theorem exists_unitsAt_eq {w : ℕ} (hw : w ≤ 2 ^ 23) :
    ∃ m ≤ infinityMagnitude, unitsAt m = w * unitsPerOne := by
  rcases Nat.eq_zero_or_pos w with rfl | hpos
  · exact ⟨0, Nat.zero_le _, by norm_num [unitsAt]⟩
  · have hle : 2 ^ w.log2 ≤ w := Nat.log2_self_le hpos.ne'
    have hlt : w < 2 ^ (w.log2 + 1) := Nat.lt_log2_self
    have hlog : w.log2 ≤ 23 := (Nat.pow_le_pow_iff_right one_lt_two).mp (hle.trans hw)
    -- the significand has its leading bit at 2 ^ 23
    have hlow : 2 ^ 23 ≤ w * 2 ^ (23 - w.log2) := by
      calc 2 ^ 23 = 2 ^ w.log2 * 2 ^ (23 - w.log2) := by rw [← pow_add]; congr 1; omega
        _ ≤ w * 2 ^ (23 - w.log2) := Nat.mul_le_mul_right _ hle
    have hhigh : w * 2 ^ (23 - w.log2) ≤ 2 ^ 24 := by
      calc w * 2 ^ (23 - w.log2) ≤ 2 ^ (w.log2 + 1) * 2 ^ (23 - w.log2) := Nat.mul_le_mul_right _ hlt.le
        _ = 2 ^ 24 := by rw [← pow_add]; congr 1; omega
    refine ⟨(126 + w.log2) * 2 ^ 23 + w * 2 ^ (23 - w.log2), ?_, ?_⟩
    · rw [infinityMagnitude, Nat.pow_eq]
      omega
    · rw [unitsAt_grid (.inr hlow) hhigh, unitsPerOne, Nat.pow_eq, mul_assoc, ← pow_add]
      congr 2
      omega

/-- A number that is not whole is below the whole numbers that have a gap after them. -/
theorem units_lt (h : x.units % unitsPerOne ≠ 0) : x.units < 2 ^ 23 * unitsPerOne := by
  rw [units_eq, unitsPerOne, Nat.pow_eq] at *
  rcases unitsAt_side 149 x.magnitude with ⟨j, hj⟩ | ⟨-, hlt⟩
  · exact absurd (hj ▸ Nat.mul_mod_left j _) h
  · exact hlt

/-- A whole number that rounds to a number below the gaps is that number. -/
theorem units_eq_of_isNearest {w : ℕ} (hw : w ≤ 2 ^ 23)
    (h : IsNearest (w * unitsPerOne) x.magnitude) : x.units = w * unitsPerOne := by
  obtain ⟨m, hm, hunits⟩ := exists_unitsAt_eq hw
  have hself := isNearest_unitsAt hm
  rw [hunits, Nat.cast_mul] at hself
  rw [units_eq, ← hself.unique h, hunits]

theorem below_div (x : Single) (places : ℕ) : x.below places / 10 ^ places = x.units / unitsPerOne := by
  rw [below, Nat.pow_eq, Nat.div_div_eq_div_mul, Nat.mul_div_mul_right _ _ (Nat.pow_pos (by norm_num))]

/-- The first point above a number that is not whole is not the next whole number if it reads back: that
one stands for itself. -/
theorem not_dvd_above (h : x.units % unitsPerOne ≠ 0) {places : ℕ}
    (hback : x.readsBack places (x.below places + 1) = true) : ¬ 10 ^ places ∣ x.below places + 1 := by
  rintro ⟨w, hw⟩
  have hpos : 0 < 10 ^ places := Nat.pow_pos (by norm_num)
  have hlt : x.below places < 2 ^ 23 * 10 ^ places := by
    rw [← Nat.div_lt_iff_lt_mul hpos, below_div, Nat.div_lt_iff_lt_mul unitsPerOne_pos]
    exact units_lt h
  have hsmall : w ≤ 2 ^ 23 := by
    refine Nat.le_of_mul_le_mul_left ?_ hpos
    rw [← hw, Nat.mul_comm (10 ^ places)]
    exact hlt
  have hround := readsBack_iff.mp hback
  rw [point, hw, Nat.cast_mul, Nat.cast_pow, Nat.cast_ofNat, mul_div_cancel_left₀ _ (by positivity)]
    at hround
  exact h (units_eq_of_isNearest hsmall hround ▸ Nat.mul_mod_left w _)

/-- **The chosen decimal has the whole part of the number.** -/
theorem shortest_div (h : x.units % unitsPerOne ≠ 0) :
    x.shortest.1 / 10 ^ x.shortest.2 = x.units / unitsPerOne := by
  rcases x.shortest_cases.1 with hgrid | hexact
  · obtain ⟨hn | hn, hback⟩ := of_onGrid? hgrid
    · rw [hn, below_div]
    · rw [hn] at hback
      rw [hn, Nat.succ_div_of_not_dvd (not_dvd_above h hback), below_div]
  · rw [hexact, show (10 : ℕ) ^ 149 = 2 ^ 149 * 5 ^ 149 by norm_num,
      Nat.mul_div_mul_right _ _ (by positivity), unitsPerOne, Nat.pow_eq]

/-! ### The text -/

theorem isNaN_eq_false (h : x.isFinite = true) : x.isNaN = false := by
  rw [isNaN, decide_eq_false_iff_not]
  exact Nat.not_lt.mpr (isFinite_iff.mp h).le

theorem text_eq (h : x.isFinite = true) :
    x.text = String.ofList (minus x.isNegative ++ x.digits) := by
  unfold text
  rw [isNaN_eq_false h, if_neg Bool.false_ne_true, if_pos h]
  cases x.isNegative <;> rfl

theorem isWhole_iff (h : x.isFinite = true) : x.isWhole = true ↔ x.units % unitsPerOne = 0 := by
  rw [isWhole, h, Bool.true_and, beq_iff_eq]

theorem digits_eq {n places : ℕ} (hp : x.shortest = (n, places)) :
    x.digits = if x.isWhole then digitChars (x.units / unitsPerOne) else pointChars n places := by
  unfold digits
  rw [hp]

/-- The digits are those of the value, or those of the chosen decimal. -/
theorem digits_cases (h : x.isFinite = true) :
    (x.units % unitsPerOne = 0 ∧ x.digits = digitChars (x.units / unitsPerOne)) ∨
      (x.units % unitsPerOne ≠ 0 ∧ x.digits = pointChars x.shortest.1 x.shortest.2) := by
  have hdigits := digits_eq (Prod.mk.eta (p := x.shortest)).symm
  by_cases hwhole : x.isWhole = true
  · exact .inl ⟨(isWhole_iff h).mp hwhole, hdigits.trans (if_pos hwhole)⟩
  · exact .inr ⟨mt (isWhole_iff h).mpr hwhole, hdigits.trans (if_neg hwhole)⟩

/-- Of a sign and a magnitude there is one number that a decimal rounds to. -/
theorem toSingle_eq {d : Decimal} (hnegative : d.negative = x.isNegative)
    (h : IsNearest (d.magnitude * unitsPerOne) x.magnitude) : d.toSingle = x := by
  obtain ⟨m, hm, hnearest⟩ := d.exists_isNearest
  rw [hm, hnearest.unique h, hnegative, ofMagnitude_eq_self]

theorem toSingle_whole {n : ℕ} (h : IsNearest (n * unitsPerOne) x.magnitude) :
    Decimal.toSingle ⟨x.isNegative, n, 0⟩ = x := by
  refine toSingle_eq rfl ?_
  rwa [Decimal.magnitude, zpow_zero, mul_one]

theorem toSingle_point {n places : ℕ} (h : IsNearest (point places n) x.magnitude) :
    Decimal.toSingle ⟨x.isNegative, n, -(places : ℤ)⟩ = x := by
  refine toSingle_eq rfl ?_
  rwa [Decimal.magnitude, zpow_neg, zpow_natCast, ← div_eq_mul_inv]

/-- **The text of a finite number is read as the number**, bit for bit. -/
theorem leadingSingle_text (h : x.isFinite = true) : leadingSingle x.text = x := by
  rw [text_eq h]
  rcases digits_cases h with ⟨hwhole, hdigits⟩ | ⟨-, hdigits⟩ <;> rw [hdigits]
  · have hvalue : x.units / unitsPerOne * unitsPerOne = x.units :=
      Nat.div_mul_cancel (Nat.dvd_of_mod_eq_zero hwhole)
    have hnearest := isNearest_units h
    rw [← hvalue, Nat.cast_mul] at hnearest
    rw [leadingSingle_whole, toSingle_whole hnearest]
  · rw [leadingSingle_point, toSingle_point (shortest_isNearest h)]

theorem truncate_eq (h : x.isFinite = true) : x.truncate =
    clamp (if x.isNegative then -((x.units / unitsPerOne : ℕ) : ℤ) else (x.units / unitsPerOne : ℕ)) := by
  unfold truncate
  rw [isNaN_eq_false h, if_neg Bool.false_ne_true, Int.natCast_div]

/-- **Read as an integer the text of a finite number is the number without its fraction.** -/
theorem leadingInteger_text (h : x.isFinite = true) : leadingInteger x.text = x.truncate := by
  rw [text_eq h, truncate_eq h]
  rcases digits_cases h with ⟨-, hdigits⟩ | ⟨hfraction, hdigits⟩ <;> rw [hdigits]
  · exact leadingInteger_whole x.isNegative _
  · rw [leadingInteger_point, Nat.pow_eq, shortest_div hfraction]

/-- The text of a finite number is made of digits, the minus sign and the point. -/
theorem mem_text (h : x.isFinite = true) {c : Char} (hc : c ∈ x.text.toList) :
    c = '-' ∨ c = '.' ∨ isDigit c = true := by
  rw [text_eq h, String.toList_ofList, List.mem_append] at hc
  rcases hc with hc | hc
  · exact .inl (mem_minus hc)
  · rcases digits_cases h with ⟨-, hdigits⟩ | ⟨-, hdigits⟩ <;> rw [hdigits] at hc
    · exact .inr (.inr (isDigit_of_mem_digitChars hc))
    · exact .inr (mem_pointChars hc)

end Single

end DevConsole.Number
