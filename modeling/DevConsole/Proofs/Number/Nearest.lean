import DevConsole.Number.Decimal
import Mathlib.Algebra.Order.Field.Basic
import Mathlib.Algebra.Order.Field.Power
import Mathlib.Algebra.Order.Ring.Abs
import Mathlib.Data.Rat.Cast.Order
import Mathlib.Tactic.FieldSimp
import Mathlib.Tactic.Linarith
import Mathlib.Tactic.NormNum
import Mathlib.Tactic.Positivity
import Mathlib.Tactic.Ring

/-!
# The nearest number of binary32

The lower bits of the numbers count the absolute values up in increasing order
(`unitsAt_strictMono`). One of them is nearest to a rational if no other one is closer, and if it is
even where another one is as close (`IsNearest`). There is only one such (`IsNearest.unique`), and
`nearestMagnitude` finds it (`isNearest_nearestMagnitude`), so a decimal numeral is read as the number
nearest to it (`Decimal.exists_isNearest`).
-/

namespace DevConsole.Number

namespace Single

/-! ### The nearest whole number -/

theorem roundHalfEven_cases (a d : ℕ) :
    (roundHalfEven a d = a / d ∧ 2 * (a % d) ≤ d) ∨
      (roundHalfEven a d = a / d + 1 ∧ d ≤ 2 * (a % d)) := by
  unfold roundHalfEven
  dsimp only
  split_ifs with hlow hhigh
  · exact .inl ⟨rfl, hlow.le⟩
  · exact .inr ⟨rfl, hhigh.le⟩
  · rcases Nat.mod_two_eq_zero_or_one (a / d) with h | h
    · exact .inl ⟨by omega, by omega⟩
    · exact .inr ⟨by omega, by omega⟩

/-- At a distance of exactly one half the rounded number is even. -/
theorem even_roundHalfEven {a d : ℕ} (h : 2 * (a % d) = d) : roundHalfEven a d % 2 = 0 := by
  unfold roundHalfEven
  dsimp only
  rw [if_neg (by omega), if_neg (by omega)]
  omega

theorem div_eq_add {a d : ℕ} (hd : 0 < d) : (a / d : ℚ) = (a / d : ℕ) + (a % d : ℕ) / d := by
  have hd' : (d : ℚ) ≠ 0 := by positivity
  have hdivmod : (a : ℚ) = d * (a / d : ℕ) + (a % d : ℕ) := by exact_mod_cast (Nat.div_add_mod a d).symm
  rw [eq_comm, ← sub_eq_zero]
  field_simp
  linarith

theorem abs_sub_roundHalfEven_le {a d : ℕ} (hd : 0 < d) :
    |(a / d : ℚ) - roundHalfEven a d| ≤ 1 / 2 := by
  have hd' : (0 : ℚ) < d := by exact_mod_cast hd
  have hrest : (0 : ℚ) ≤ (a % d : ℕ) / d := by positivity
  have hlt : ((a % d : ℕ) / d : ℚ) < 1 := by
    rw [div_lt_one hd']
    exact_mod_cast Nat.mod_lt a hd
  rw [div_eq_add hd, abs_le]
  rcases roundHalfEven_cases a d with ⟨h, hr⟩ | ⟨h, hr⟩ <;> rw [h]
  · have hhalf : ((a % d : ℕ) / d : ℚ) ≤ 1 / 2 := by
      rw [div_le_div_iff₀ hd' two_pos]
      exact_mod_cast (by omega : a % d * 2 ≤ 1 * d)
    constructor <;> linarith
  · have hhalf : 1 / 2 ≤ ((a % d : ℕ) / d : ℚ) := by
      rw [div_le_div_iff₀ two_pos hd']
      exact_mod_cast (by omega : 1 * d ≤ a % d * 2)
    push_cast
    constructor <;> linarith

theorem even_of_abs_sub_eq {a d : ℕ} (hd : 0 < d)
    (h : |(a / d : ℚ) - roundHalfEven a d| = 1 / 2) : roundHalfEven a d % 2 = 0 := by
  have hd' : (0 : ℚ) < d := by exact_mod_cast hd
  refine even_roundHalfEven ?_
  have hhalf : ((a % d : ℕ) / d : ℚ) = 1 / 2 := by
    rw [div_eq_add hd] at h
    have hlt : ((a % d : ℕ) / d : ℚ) < 1 := by
      rw [div_lt_one hd']
      exact_mod_cast Nat.mod_lt a hd
    have hrest : (0 : ℚ) ≤ (a % d : ℕ) / d := by positivity
    rcases roundHalfEven_cases a d with ⟨hround, -⟩ | ⟨hround, -⟩ <;> rw [hround] at h
    · rwa [add_sub_cancel_left, abs_of_nonneg hrest] at h
    · push_cast at h
      rw [add_sub_add_left_eq_sub, abs_of_nonpos (by linarith)] at h
      linarith
  rw [div_eq_div_iff hd'.ne' two_ne_zero] at hhalf
  have : a % d * 2 = 1 * d := by exact_mod_cast hhalf
  omega

/-- **Rounding leads to a nearest whole number, and of two to the even one.** -/
theorem roundHalfEven_nearest {a d : ℕ} (hd : 0 < d) {k : ℕ} (hk : k ≠ roundHalfEven a d) :
    |(a / d : ℚ) - roundHalfEven a d| ≤ |(a / d : ℚ) - k| ∧
      (|(a / d : ℚ) - roundHalfEven a d| = |(a / d : ℚ) - k| → roundHalfEven a d % 2 = 0) := by
  have hnear := abs_sub_roundHalfEven_le (a := a) hd
  have happart : 1 ≤ |(roundHalfEven a d : ℚ) - k| := by
    have hne : (roundHalfEven a d : ℤ) - k ≠ 0 := by omega
    exact_mod_cast Int.one_le_abs hne
  -- two whole numbers are one apart, so the other one is at least one half away
  have htriangle := abs_sub_le (roundHalfEven a d : ℚ) (a / d) k
  rw [abs_sub_comm _ (a / d : ℚ)] at htriangle
  refine ⟨by linarith, fun heq => even_of_abs_sub_eq hd ?_⟩
  linarith

/-! ### Magnitudes in increasing order -/

/-- The absolute value of the number with the lower bits `m`, as a multiple of the least positive
number; to infinity it gives the power of two after the largest number. -/
def unitsAt (m : ℕ) : ℕ :=
  (if m < 2 ^ 23 then m else 2 ^ 23 + m % 2 ^ 23) * 2 ^ (m / 2 ^ 23 - 1)

theorem units_eq (x : Single) : x.units = unitsAt x.magnitude := rfl

/-- The significand `r` on the grid of step `2 ^ s`, up to the first one of the next grid. -/
theorem unitsAt_grid {s r : ℕ} (hlow : s = 0 ∨ 2 ^ 23 ≤ r) (hhigh : r ≤ 2 ^ 24) :
    unitsAt (s * 2 ^ 23 + r) = r * 2 ^ s := by
  unfold unitsAt
  by_cases hsub : r < 2 ^ 23
  · obtain rfl : s = 0 := hlow.resolve_right (by omega)
    rw [if_pos (by omega), show (0 * 2 ^ 23 + r) / 2 ^ 23 - 1 = 0 by omega, zero_mul, zero_add]
  · rw [if_neg (by omega)]
    rcases Nat.lt_or_eq_of_le hhigh with hnormal | rfl
    · rw [show (s * 2 ^ 23 + r) / 2 ^ 23 - 1 = s by omega,
        show 2 ^ 23 + (s * 2 ^ 23 + r) % 2 ^ 23 = r by omega]
    · rw [show (s * 2 ^ 23 + 2 ^ 24) / 2 ^ 23 - 1 = s + 1 by omega,
        show 2 ^ 23 + (s * 2 ^ 23 + 2 ^ 24) % 2 ^ 23 = 2 ^ 23 by omega]
      ring

theorem exists_grid (m : ℕ) : ∃ s r, (s = 0 ∨ 2 ^ 23 ≤ r) ∧ r < 2 ^ 24 ∧ m = s * 2 ^ 23 + r :=
  ⟨m / 2 ^ 23 - 1, m - (m / 2 ^ 23 - 1) * 2 ^ 23, by omega, by omega, by omega⟩

/-- **The absolute values increase with the lower bits.** -/
theorem unitsAt_strictMono : StrictMono unitsAt := by
  refine strictMono_nat_of_lt_succ fun m => ?_
  obtain ⟨s, r, hlow, hhigh, rfl⟩ := exists_grid m
  rw [unitsAt_grid hlow hhigh.le, Nat.add_assoc, unitsAt_grid (by omega) hhigh]
  exact Nat.mul_lt_mul_of_pos_right (Nat.lt_succ_self r) (Nat.two_pow_pos s)

/-- Every magnitude is on the grid of a step, or below the significands of that grid. -/
theorem unitsAt_side (s k : ℕ) :
    (∃ j, unitsAt k = j * 2 ^ s) ∨ (0 < s ∧ unitsAt k < 2 ^ 23 * 2 ^ s) := by
  obtain ⟨t, r, hlow, hhigh, rfl⟩ := exists_grid k
  rcases Nat.le_total s t with hst | hts
  · left
    refine ⟨r * 2 ^ (t - s), ?_⟩
    rw [unitsAt_grid hlow hhigh.le, mul_assoc, ← pow_add, Nat.sub_add_cancel hst]
  · rcases Nat.lt_or_eq_of_le hts with hlt | rfl
    · right
      refine ⟨by omega, ?_⟩
      calc unitsAt (t * 2 ^ 23 + r) < unitsAt (s * 2 ^ 23 + 2 ^ 23) :=
            unitsAt_strictMono (by omega)
        _ = 2 ^ 23 * 2 ^ s := unitsAt_grid (.inr le_rfl) (by norm_num)
    · exact .inl ⟨r, unitsAt_grid hlow hhigh.le⟩

/-! ### The nearest magnitude -/

/-- Of the lower bits up to infinity none stand for a number closer to `q` than `m`, with `q` counted in
the least positive number, and `m` is even if others are as close. -/
structure IsNearest (q : ℚ) (m : ℕ) : Prop where
  le : m ≤ infinityMagnitude
  near : ∀ k ≤ infinityMagnitude, |q - unitsAt m| ≤ |q - unitsAt k|
  even : ∀ k ≤ infinityMagnitude, k ≠ m → |q - unitsAt m| = |q - unitsAt k| → m % 2 = 0

theorem unitsAt_lt_cast {k m : ℕ} (h : k < m) : (unitsAt k : ℚ) < unitsAt m := by
  exact_mod_cast unitsAt_strictMono h

/-- Between two that are as close as each other there is none. -/
theorem IsNearest.not_lt {q : ℚ} {m k : ℕ} (hm : IsNearest q m) (hk : IsNearest q k) : ¬ m < k := by
  intro hlt
  have heq : |q - unitsAt m| = |q - unitsAt k| :=
    le_antisymm (hm.near k hk.le) (hk.near m hm.le)
  have hmid : q - unitsAt m = unitsAt k - q := by
    have hmk := unitsAt_lt_cast hlt
    rcases abs_eq_abs.mp heq with h | h <;> linarith
  have hnext : k = m + 1 := by
    by_contra hne
    have hleft := unitsAt_lt_cast (Nat.lt_succ_self m)
    have hright := unitsAt_lt_cast (show m + 1 < k by omega)
    have hnear := hm.near (m + 1) (by have := hk.le; omega)
    rw [abs_of_nonneg (by linarith)] at hnear
    exact absurd hnear (not_le.mpr (abs_lt.mpr ⟨by linarith, by linarith⟩))
  have heven := hm.even k hk.le (by omega) heq
  have heven' := hk.even m hm.le (by omega) heq.symm
  omega

/-- **Only one magnitude is nearest.** -/
theorem IsNearest.unique {q : ℚ} {m k : ℕ} (hm : IsNearest q m) (hk : IsNearest q k) : m = k :=
  Nat.le_antisymm (Nat.not_lt.mp (hk.not_lt hm)) (Nat.not_lt.mp (hm.not_lt hk))

/-- **What rounds to a number is an interval around it**: on the way from a rational to the number it
rounds to all rationals round to it. -/
theorem IsNearest.between {q a : ℚ} {m : ℕ} (h : IsNearest q m)
    (ha : unitsAt m ≤ a ∧ a ≤ q ∨ q ≤ a ∧ a ≤ unitsAt m) : IsNearest a m := by
  have hsplit : |q - unitsAt m| = |q - a| + |a - unitsAt m| := by
    rcases ha with ⟨hlow, hhigh⟩ | ⟨hlow, hhigh⟩
    · rw [abs_of_nonneg (by linarith), abs_of_nonneg (by linarith), abs_of_nonneg (by linarith)]
      ring
    · rw [abs_of_nonpos (by linarith), abs_of_nonpos (by linarith), abs_of_nonpos (by linarith)]
      ring
  have htriangle : ∀ k, |q - unitsAt k| ≤ |q - a| + |a - unitsAt k| := fun k => abs_sub_le q a _
  refine ⟨h.le, fun k hk => ?_, fun k hk hne heq => h.even k hk hne (le_antisymm (h.near k hk) ?_)⟩
  · have hnear := h.near k hk
    have hk := htriangle k
    linarith
  · have hk := htriangle k
    linarith

/-- A number is nearest to itself. -/
theorem isNearest_unitsAt {m : ℕ} (hm : m ≤ infinityMagnitude) : IsNearest (unitsAt m) m where
  le := hm
  near k _ := by
    rw [sub_self, abs_zero]
    exact abs_nonneg _
  even k _ hne heq := by
    rw [sub_self, abs_zero, eq_comm, abs_eq_zero, sub_eq_zero] at heq
    exact absurd (unitsAt_strictMono.injective (by exact_mod_cast heq)).symm hne

/-- Up to one half of the least positive number all is nearest to zero. -/
theorem isNearest_zero {q : ℚ} (hq : 0 ≤ q) (hhalf : q ≤ 1 / 2) : IsNearest q 0 where
  le := Nat.zero_le _
  near k _ := by
    rcases Nat.eq_zero_or_pos k with rfl | hk
    · exact le_rfl
    · have hone : (1 : ℚ) ≤ unitsAt k := by
        exact_mod_cast Nat.one_le_iff_ne_zero.mpr (unitsAt_strictMono hk).ne_bot
      rw [show (unitsAt 0 : ℚ) = 0 by norm_num [unitsAt], sub_zero, abs_of_nonneg hq,
        abs_of_nonpos (by linarith)]
      linarith
  even _ _ _ _ := rfl

/-- From the power of two after the largest number on, infinity is nearest. -/
theorem isNearest_infinity {q : ℚ} (hq : (unitsAt infinityMagnitude : ℚ) ≤ q) :
    IsNearest q infinityMagnitude where
  le := le_rfl
  near k hk := by
    have hle : (unitsAt k : ℚ) ≤ unitsAt infinityMagnitude := by
      exact_mod_cast unitsAt_strictMono.monotone hk
    rw [abs_of_nonneg (by linarith), abs_of_nonneg (by linarith)]
    linarith
  even _ _ _ _ := by decide

/-- The largest power of two whose multiples may be significands of the quotient. -/
theorem scale_bounds (q : ℕ) : (q.log2 - 23 = 0 ∨ 2 ^ 23 ≤ q / 2 ^ (q.log2 - 23)) ∧
    q / 2 ^ (q.log2 - 23) < 2 ^ 24 := by
  have hpos : 0 < 2 ^ (q.log2 - 23) := Nat.two_pow_pos _
  refine ⟨?_, ?_⟩
  · rcases Nat.eq_zero_or_pos (q.log2 - 23) with h | h
    · exact .inl h
    · right
      rw [Nat.le_div_iff_mul_le hpos, ← pow_add, show 23 + (q.log2 - 23) = q.log2 by omega]
      refine Nat.log2_self_le fun hq => ?_
      rw [hq] at h
      exact absurd h (by decide)
  · rw [Nat.div_lt_iff_lt_mul hpos, ← pow_add]
    exact Nat.lt_of_lt_of_le Nat.lt_log2_self (Nat.pow_le_pow_right two_pos (by omega))

/-- Infinity takes the place of what is above it. -/
theorem isNearest_min {q : ℚ} {m : ℕ} (h : ∀ k, k ≠ m → |q - unitsAt m| ≤ |q - unitsAt k| ∧
    (|q - unitsAt m| = |q - unitsAt k| → m % 2 = 0)) : IsNearest q (min m infinityMagnitude) := by
  rcases Nat.lt_or_ge infinityMagnitude m with hlt | hle
  · rw [min_eq_right hlt.le]
    refine isNearest_infinity ?_
    have hinfinity := unitsAt_lt_cast hlt
    have hnear := (h infinityMagnitude hlt.ne).1
    by_contra hbelow
    rw [abs_of_neg (by linarith), abs_of_neg (by linarith)] at hnear
    linarith
  · rw [min_eq_left hle]
    refine ⟨hle, fun k _ => ?_, fun k _ hk => (h k hk).2⟩
    rcases eq_or_ne k m with rfl | hk
    · exact le_rfl
    · exact (h k hk).1

/-- What is nearest on the grid of a step is nearest among all magnitudes. -/
theorem nearest_of_grid {x : ℚ} {s r : ℕ} (hlow : s = 0 ∨ (2 ^ 23 : ℚ) ≤ x)
    (hgrid : ∀ j : ℕ, j ≠ r → |x - r| ≤ |x - j| ∧ (|x - r| = |x - j| → r % 2 = 0)) {k : ℕ}
    (hk : unitsAt k ≠ r * 2 ^ s) :
    |x * 2 ^ s - (r * 2 ^ s : ℕ)| ≤ |x * 2 ^ s - unitsAt k| ∧
      (|x * 2 ^ s - (r * 2 ^ s : ℕ)| = |x * 2 ^ s - unitsAt k| → r % 2 = 0) := by
  have hpos : (0 : ℚ) < 2 ^ s := by positivity
  have hscale : ∀ j : ℕ, |x * 2 ^ s - (j * 2 ^ s : ℕ)| = |x - j| * 2 ^ s := by
    intro j
    push_cast
    rw [← sub_mul, abs_mul, abs_of_pos hpos]
  rw [hscale]
  rcases unitsAt_side s k with ⟨j, hj⟩ | ⟨hs, hbelow⟩
  · have hjr : j ≠ r := fun h => hk (h ▸ hj)
    rw [hj, hscale]
    exact ⟨mul_le_mul_of_nonneg_right (hgrid j hjr).1 hpos.le,
      fun heq => (hgrid j hjr).2 (mul_right_cancel₀ hpos.ne' heq)⟩
  · -- the number is below the grid, and `x` is not, so the first point of the grid is closer
    have hfirst : |x - r| ≤ x - 2 ^ 23 := by
      have hx : (2 ^ 23 : ℚ) ≤ x := hlow.resolve_left hs.ne'
      have hfirst' : |x - r| ≤ |x - (2 ^ 23 : ℕ)| := by
        rcases eq_or_ne (2 ^ 23) r with rfl | hr
        · exact le_rfl
        · exact (hgrid (2 ^ 23) hr).1
      rwa [Nat.cast_pow, Nat.cast_ofNat, abs_of_nonneg (sub_nonneg.mpr hx)] at hfirst'
    have hcloser : |x - r| * 2 ^ s < |x * 2 ^ s - unitsAt k| := by
      have hbelow' : (unitsAt k : ℚ) < 2 ^ 23 * 2 ^ s := by exact_mod_cast hbelow
      calc |x - r| * 2 ^ s ≤ (x - 2 ^ 23) * 2 ^ s := mul_le_mul_of_nonneg_right hfirst hpos.le
        _ = x * 2 ^ s - 2 ^ 23 * 2 ^ s := sub_mul _ _ _
        _ < x * 2 ^ s - unitsAt k := sub_lt_sub_left hbelow' _
        _ ≤ |x * 2 ^ s - unitsAt k| := le_abs_self _
    exact ⟨hcloser.le, fun heq => absurd heq hcloser.ne⟩

theorem isNearest_rounded (a : ℕ) {den : ℕ} (hden : 0 < den) :
    IsNearest (a / den) (min (((a / den).log2 - 23) * 2 ^ 23 +
      roundHalfEven a (den * 2 ^ ((a / den).log2 - 23))) infinityMagnitude) := by
  obtain ⟨hlow, hhigh⟩ := scale_bounds (a / den)
  generalize (a / den).log2 - 23 = s at hlow hhigh ⊢
  have hstep : 0 < den * 2 ^ s := Nat.mul_pos hden (Nat.two_pow_pos s)
  rw [Nat.div_div_eq_div_mul] at hlow hhigh
  have hround := roundHalfEven_cases a (den * 2 ^ s)
  have hunits : unitsAt (s * 2 ^ 23 + roundHalfEven a (den * 2 ^ s)) =
      roundHalfEven a (den * 2 ^ s) * 2 ^ s := unitsAt_grid (by omega) (by omega)
  have hq : (a / den : ℚ) = (a / (den * 2 ^ s : ℕ)) * 2 ^ s := by
    rw [Nat.cast_mul, Nat.cast_pow, Nat.cast_ofNat]
    field_simp
  have hlow' : s = 0 ∨ (2 ^ 23 : ℚ) ≤ a / (den * 2 ^ s : ℕ) := by
    refine hlow.imp id fun h => ?_
    rw [le_div_iff₀ (by exact_mod_cast hstep)]
    exact_mod_cast (Nat.le_div_iff_mul_le hstep).mp h
  refine isNearest_min fun k hk => ?_
  have hne : unitsAt k ≠ roundHalfEven a (den * 2 ^ s) * 2 ^ s := fun h =>
    hk (unitsAt_strictMono.injective (h.trans hunits.symm))
  obtain ⟨hnear, heven⟩ := nearest_of_grid hlow' (fun j hj => roundHalfEven_nearest hstep hj) hne
  rw [hunits, hq]
  refine ⟨hnear, fun heq => ?_⟩
  have := heven heq
  omega

/-- **The rounding finds the nearest magnitude.** -/
theorem isNearest_nearestMagnitude (num : ℕ) {den : ℕ} (hden : 0 < den) :
    IsNearest (num / den * unitsPerOne) (nearestMagnitude num den) := by
  have hrounded := isNearest_rounded (num * unitsPerOne) hden
  rwa [Nat.cast_mul, mul_div_right_comm] at hrounded

theorem nearestMagnitude_eq_iff {num den m : ℕ} (hden : 0 < den) :
    nearestMagnitude num den = m ↔ IsNearest (num / den * unitsPerOne) m :=
  ⟨fun h => h ▸ isNearest_nearestMagnitude num hden,
    fun h => (isNearest_nearestMagnitude num hden).unique h⟩

theorem unitsAt_infinity : unitsAt infinityMagnitude = 2 ^ 128 * unitsPerOne := by
  have hgrid : infinityMagnitude = 254 * 2 ^ 23 + 2 ^ 23 := rfl
  rw [hgrid, unitsAt_grid (.inr le_rfl) (by norm_num), unitsPerOne, Nat.pow_eq, ← pow_add, ← pow_add]

end Single

/-! ### Numerals -/

/-- The absolute value of a numeral. -/
def Decimal.magnitude (d : Decimal) : ℚ := d.coefficient * 10 ^ d.exponent

open Single in
/-- A quotient with so many places is nearest to zero. -/
theorem isNearest_zero_of_log2 {n places : ℕ} (h : n.log2 + 151 ≤ 3 * places) :
    IsNearest (n / 10 ^ places * unitsPerOne) 0 := by
  refine isNearest_zero (by positivity) ?_
  have hpower : n * 2 ^ 150 ≤ 10 ^ places :=
    calc n * 2 ^ 150 ≤ 2 ^ (n.log2 + 1) * 2 ^ 150 := Nat.mul_le_mul_right _ Nat.lt_log2_self.le
      _ = 2 ^ (n.log2 + 151) := by rw [← pow_add]
      _ ≤ 2 ^ (3 * places) := Nat.pow_le_pow_right two_pos h
      _ = 8 ^ places := by rw [pow_mul]; norm_num
      _ ≤ 10 ^ places := Nat.pow_le_pow_left (by norm_num) places
  rw [div_mul_eq_mul_div, div_le_div_iff₀ (by positivity) two_pos, unitsPerOne, Nat.pow_eq, one_mul,
    mul_assoc]
  exact_mod_cast hpower

open Single in
/-- A number with so large an exponent is nearest to infinity. -/
theorem isNearest_infinity_of_lt {n : ℕ} {e : ℤ} (hn : n ≠ 0) (he : 40 < e) :
    IsNearest (n * 10 ^ e * unitsPerOne) infinityMagnitude := by
  refine isNearest_infinity ?_
  have hcoefficient : (1 : ℚ) ≤ n := by exact_mod_cast Nat.pos_of_ne_zero hn
  have hpower : (10 : ℚ) ^ (41 : ℤ) ≤ 10 ^ e := zpow_le_zpow_right₀ (by norm_num) he
  rw [unitsAt_infinity, Nat.cast_mul]
  refine mul_le_mul_of_nonneg_right ?_ (Nat.cast_nonneg _)
  calc ((2 ^ 128 : ℕ) : ℚ) ≤ 1 * 10 ^ (41 : ℤ) := by norm_num
    _ ≤ n * 10 ^ e := by gcongr

open Single in
/-- **A numeral is read as the nearest number**, with its own sign. -/
theorem Decimal.exists_isNearest (d : Decimal) :
    ∃ m, d.toSingle = .ofMagnitude d.negative m ∧ IsNearest (d.magnitude * unitsPerOne) m := by
  unfold Decimal.toSingle Decimal.magnitude
  split_ifs with hzero hlarge hwhole
  · refine ⟨0, rfl, ?_⟩
    rw [hzero, Nat.cast_zero, zero_mul, zero_mul]
    exact isNearest_zero le_rfl (by norm_num)
  · exact ⟨_, rfl, isNearest_infinity_of_lt hzero hlarge⟩
  · refine ⟨_, rfl, ?_⟩
    have hnearest := isNearest_nearestMagnitude (d.coefficient * Nat.pow 10 d.exponent.toNat) one_pos
    have hpower : (10 : ℚ) ^ d.exponent = 10 ^ d.exponent.toNat := by
      rw [← zpow_natCast, Int.toNat_of_nonneg hwhole]
    rwa [Nat.cast_one, div_one, Nat.cast_mul, Nat.pow_eq, Nat.cast_pow, Nat.cast_ofNat, ← hpower]
      at hnearest
  · have hexponent : d.exponent = -((-d.exponent).toNat : ℤ) := by omega
    have hpower : (d.coefficient * 10 ^ d.exponent : ℚ) =
        d.coefficient / 10 ^ (-d.exponent).toNat := by
      rw [hexponent, zpow_neg, zpow_natCast, ← hexponent, div_eq_mul_inv]
    rw [hpower]
    dsimp only
    split_ifs with hsmall
    · exact ⟨0, rfl, isNearest_zero_of_log2 hsmall⟩
    · refine ⟨_, rfl, ?_⟩
      have hpos : 0 < Nat.pow 10 (-d.exponent).toNat := Nat.pow_pos (by norm_num)
      have hnearest := isNearest_nearestMagnitude d.coefficient hpos
      rwa [Nat.pow_eq, Nat.cast_pow, Nat.cast_ofNat] at hnearest

/-! ### Signed values -/

namespace Single

/-- The value of a finite number. -/
def value (x : Single) : ℚ := (if x.isNegative then -(x.units : ℚ) else x.units) / unitsPerOne

theorem isFinite_iff {x : Single} : x.isFinite = true ↔ x.magnitude < infinityMagnitude := by
  rw [isFinite, decide_eq_true_iff]

/-- A number is its sign and its lower bits. -/
theorem ofMagnitude_eq_self (x : Single) : ofMagnitude x.isNegative x.magnitude = x := by
  have hlt : x.bits.toNat < 2 ^ 32 := x.bits.toNat_lt
  have hbits : (if x.isNegative = true then Nat.pow 2 31 + x.magnitude else x.magnitude) =
      x.bits.toNat := by
    simp only [isNegative, magnitude, Nat.pow_eq, decide_eq_true_eq]
    split <;> omega
  rw [ofMagnitude, hbits, UInt32.ofNat_toNat]

section ofMagnitude
variable {negative : Bool} {m : ℕ} (hm : m < 2 ^ 31)
include hm

theorem toNat_ofMagnitude :
    (ofMagnitude negative m).bits.toNat = if negative then 2 ^ 31 + m else m := by
  rw [ofMagnitude, UInt32.toNat_ofNat_of_lt']
  · rfl
  · simp only [Nat.pow_eq, UInt32.size]
    split <;> omega

theorem magnitude_ofMagnitude : (ofMagnitude negative m).magnitude = m := by
  rw [magnitude, toNat_ofMagnitude hm, Nat.pow_eq]
  split <;> omega

theorem isNegative_ofMagnitude : (ofMagnitude negative m).isNegative = negative := by
  rw [isNegative, toNat_ofMagnitude hm, Nat.pow_eq]
  cases negative with
  | false => exact decide_eq_false (by rw [if_neg Bool.false_ne_true]; omega)
  | true => exact decide_eq_true (by rw [if_pos rfl]; omega)

end ofMagnitude

theorem unitsPerOne_pos : 0 < unitsPerOne := Nat.two_pow_pos 149

theorem abs_value (x : Single) : |x.value| * unitsPerOne = unitsAt x.magnitude := by
  have hpos : (0 : ℚ) < unitsPerOne := by exact_mod_cast unitsPerOne_pos
  rw [value, abs_div, abs_of_pos hpos, div_mul_cancel₀ _ hpos.ne', ← units_eq]
  split
  · rw [abs_neg, Nat.abs_cast]
  · rw [Nat.abs_cast]

theorem value_nonneg {x : Single} (h : x.isNegative = false) : 0 ≤ x.value := by
  rw [value, h]
  exact div_nonneg (Nat.cast_nonneg _) (Nat.cast_nonneg _)

theorem value_nonpos {x : Single} (h : x.isNegative = true) : x.value ≤ 0 := by
  rw [value, if_pos h]
  exact div_nonpos_of_nonpos_of_nonneg (neg_nonpos.mpr (Nat.cast_nonneg _)) (Nat.cast_nonneg _)

/-- No number is closer to a rational than its absolute value is to that of the rational. -/
theorem abs_sub_units_le (q : ℚ) (x : Single) :
    |(|q| * unitsPerOne) - unitsAt x.magnitude| ≤ |q - x.value| * unitsPerOne := by
  have hpos : (0 : ℚ) < unitsPerOne := by exact_mod_cast unitsPerOne_pos
  rw [← abs_value, ← sub_mul, abs_mul, abs_of_pos hpos]
  exact mul_le_mul_of_nonneg_right (abs_abs_sub_abs_le q x.value) hpos.le

/-- With the same sign it is as close. -/
theorem abs_sub_units_eq {q : ℚ} {x : Single} (hsign : x.isNegative = true ↔ q < 0) :
    |q - x.value| * unitsPerOne = |(|q| * unitsPerOne) - unitsAt x.magnitude| := by
  have hpos : (0 : ℚ) < unitsPerOne := by exact_mod_cast unitsPerOne_pos
  rw [← abs_value, ← sub_mul, abs_mul, abs_of_pos hpos]
  congr 1
  rcases lt_or_ge q 0 with hq | hq
  · rw [abs_of_neg hq, abs_of_nonpos (value_nonpos (hsign.mpr hq)), neg_sub_neg, abs_sub_comm]
  · have hvalue := value_nonneg (Bool.eq_false_iff.mpr (mt hsign.mp (not_lt.mpr hq)))
    rw [abs_of_nonneg hq, abs_of_nonneg hvalue]

/-- A rational between two opposite numbers is zero. -/
theorem eq_zero_of_opposite {q : ℚ} {x y : Single} (hmagnitude : y.magnitude = x.magnitude)
    (hne : y.value ≠ x.value) (heq : |q - x.value| = |q - y.value|) : q = 0 := by
  have hpos : (0 : ℚ) < unitsPerOne := by exact_mod_cast unitsPerOne_pos
  have habs : |y.value| = |x.value| := by
    refine mul_right_cancel₀ hpos.ne' ?_
    rw [abs_value, abs_value, hmagnitude]
  have hopposite : y.value = -x.value := (abs_eq_abs.mp habs).resolve_left hne
  rw [hopposite] at hne heq
  rcases abs_eq_abs.mp heq with h | h
  · exact absurd (by linarith) hne
  · linarith

/-- The number is `q` rounded: it has the sign of `q`, no finite number has a value closer to `q`, and
its last bit is 0 if another value is as close. -/
structure IsRounded (q : ℚ) (x : Single) : Prop where
  finite : x.isFinite = true
  sign : x.isNegative = true ↔ q < 0
  near : ∀ y : Single, y.isFinite = true → |q - x.value| ≤ |q - y.value|
  even : ∀ y : Single, y.isFinite = true → y.value ≠ x.value → |q - x.value| = |q - y.value| →
    x.magnitude % 2 = 0

/-- **The nearest magnitude with the sign of a rational is the rational rounded**, unless it is
infinite. -/
theorem IsNearest.isRounded {q : ℚ} {m : ℕ} (h : IsNearest (|q| * unitsPerOne) m)
    (hm : m < infinityMagnitude) : IsRounded q (ofMagnitude (q < 0) m) := by
  have hlt : m < 2 ^ 31 := lt_trans hm (by decide)
  have hmagnitude : (ofMagnitude (q < 0) m).magnitude = m := magnitude_ofMagnitude hlt
  have hsign : (ofMagnitude (q < 0) m).isNegative = true ↔ q < 0 := by
    rw [isNegative_ofMagnitude hlt, decide_eq_true_eq]
  generalize ofMagnitude (q < 0) m = x at hmagnitude hsign
  subst hmagnitude
  have hpos : (0 : ℚ) < unitsPerOne := by exact_mod_cast unitsPerOne_pos
  have hle : ∀ y : Single, y.isFinite = true → y.magnitude ≤ infinityMagnitude :=
    fun y hfinite => (isFinite_iff.mp hfinite).le
  refine ⟨isFinite_iff.mpr hm, hsign, fun y hfinite => ?_, fun y hfinite hne heq => ?_⟩
  · have hnear := (h.near _ (hle y hfinite)).trans (abs_sub_units_le q y)
    rw [← abs_sub_units_eq hsign] at hnear
    exact le_of_mul_le_mul_right hnear hpos
  · by_cases hk : y.magnitude = x.magnitude
    · -- the two values differ in the sign alone, and zero is rounded to the even one
      rw [eq_zero_of_opposite hk hne heq, abs_zero, zero_mul] at h
      rw [h.unique (isNearest_zero le_rfl (by norm_num))]
    · refine h.even _ (hle y hfinite) hk (le_antisymm (h.near _ (hle y hfinite)) ?_)
      rw [← abs_sub_units_eq hsign, heq]
      exact abs_sub_units_le q y

end Single

end DevConsole.Number
