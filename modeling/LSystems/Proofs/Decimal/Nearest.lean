import LSystems.Decimal.Shortest
import Mathlib.Algebra.Order.Field.Power
import Mathlib.Data.Rat.Cast.Order
import Mathlib.Tactic.FieldSimp
import Mathlib.Tactic.Linarith
import Mathlib.Tactic.Positivity
import Mathlib.Tactic.Ring

/-!
# The double nearest to a quotient

A quotient that is the exact value of a finite double is rounded to this double. So
every numeral that is found for a double reads back as it, also the exact one that
stands in when no short one does. Main statement: `nearest_shortest`.
-/

namespace LSystems.Decimal

/-! ## Scaling -/

theorem zpow_eq_div {base : ℚ} (nonzero : base ≠ 0) (exponent : Int) :
    base ^ exponent = base ^ exponent.toNat / base ^ (-exponent).toNat := by
  have whole : exponent = (exponent.toNat : Int) - ((-exponent).toNat : Int) := by omega
  conv_lhs => rw [whole, zpow_sub₀ nonzero, zpow_natCast, zpow_natCast]

section Scaled

variable (value : Nat) {base : Nat} (positive : 0 < base) (exponent : Int)
include positive

theorem scaled_pos : 0 < (scaled value base exponent).2 :=
  Nat.pow_pos positive

theorem scaled_eq :
    ((scaled value base exponent).1 : ℚ) / (scaled value base exponent).2 =
      value * (base : ℚ) ^ exponent := by
  have nonzero : (base : ℚ) ≠ 0 := by positivity
  rw [zpow_eq_div nonzero, ← mul_div_assoc]
  simp [scaled]

end Scaled

/-! ## Binary exponents -/

variable {numerator denominator : Nat}

theorem scaled_le_iff (numerator : Nat) {base : Nat} (positive : 0 < base)
    (below : 0 < denominator) (exponent : Int) :
    (scaled denominator base exponent).1 ≤
      numerator * (scaled denominator base exponent).2 ↔
      (base : ℚ) ^ exponent ≤ numerator / denominator := by
  have lower : (0 : ℚ) < (scaled denominator base exponent).2 :=
    Nat.cast_pos.mpr (scaled_pos _ positive exponent)
  have below : (0 : ℚ) < denominator := Nat.cast_pos.mpr below
  rw [← Nat.cast_le (α := ℚ), Nat.cast_mul, ← div_le_iff₀ lower, scaled_eq _ positive,
    le_div_iff₀ below, mul_comm]

theorem quotient_bounds (above : 0 < numerator) (below : 0 < denominator) :
    (2 : ℚ) ^ ((numerator.log2 : Int) - denominator.log2 - 1) ≤ numerator / denominator ∧
      (numerator : ℚ) / denominator <
        2 ^ ((numerator.log2 : Int) - denominator.log2 + 1) := by
  have positive : (0 : ℚ) < denominator := Nat.cast_pos.mpr below
  have numeratorAbove : (2 : ℚ) ^ numerator.log2 ≤ numerator := by
    exact_mod_cast Nat.log2_self_le above.ne'
  have numeratorBelow : (numerator : ℚ) < 2 ^ (numerator.log2 + 1) := by
    exact_mod_cast Nat.lt_log2_self
  have denominatorAbove : (2 : ℚ) ^ denominator.log2 ≤ denominator := by
    exact_mod_cast Nat.log2_self_le below.ne'
  have denominatorBelow : (denominator : ℚ) < 2 ^ (denominator.log2 + 1) := by
    exact_mod_cast Nat.lt_log2_self
  constructor
  · rw [le_div_iff₀ positive]
    calc
      (2 : ℚ) ^ ((numerator.log2 : Int) - denominator.log2 - 1) * denominator
        ≤ 2 ^ ((numerator.log2 : Int) - denominator.log2 - 1) *
          2 ^ (denominator.log2 + 1) := by
          gcongr
      _ = 2 ^ numerator.log2 := by
          rw [← zpow_natCast, ← zpow_natCast, ← zpow_add₀ two_ne_zero]
          congr 1
          omega
      _ ≤ numerator := numeratorAbove
  · rw [div_lt_iff₀ positive]
    calc
      (numerator : ℚ) < 2 ^ (numerator.log2 + 1) := numeratorBelow
      _ = 2 ^ ((numerator.log2 : Int) - denominator.log2 + 1) * 2 ^ denominator.log2 := by
          rw [← zpow_natCast, ← zpow_natCast, ← zpow_add₀ two_ne_zero]
          congr 1
          omega
      _ ≤ 2 ^ ((numerator.log2 : Int) - denominator.log2 + 1) * denominator := by
          gcongr

theorem floorLog2_spec (above : 0 < numerator) (below : 0 < denominator) :
    (2 : ℚ) ^ floorLog2 numerator denominator ≤ numerator / denominator ∧
      (numerator : ℚ) / denominator < 2 ^ (floorLog2 numerator denominator + 1) := by
  rcases quotient_bounds above below with ⟨lower, upper⟩
  have compare := scaled_le_iff numerator two_pos below
    ((numerator.log2 : Int) - denominator.log2)
  rw [Nat.cast_ofNat] at compare
  simp only [floorLog2, floorLog]
  by_cases reaches : (2 : ℚ) ^ ((numerator.log2 : Int) - denominator.log2) ≤
      numerator / denominator
  · rw [if_pos (compare.mpr reaches)]
    exact ⟨reaches, upper⟩
  · rw [if_neg fun least => reaches (compare.mp least), Int.sub_add_cancel]
    exact ⟨lower, lt_of_not_ge reaches⟩

theorem floorLog2_lt {exponent : Int} (above : 0 < numerator) (below : 0 < denominator)
    (small : (numerator : ℚ) / denominator < 2 ^ exponent) :
    floorLog2 numerator denominator < exponent :=
  (zpow_lt_zpow_iff_right₀ one_lt_two).mp
    ((floorLog2_spec above below).1.trans_lt small)

theorem le_floorLog2 {exponent : Int} (above : 0 < numerator) (below : 0 < denominator)
    (large : (2 : ℚ) ^ exponent ≤ numerator / denominator) :
    exponent ≤ floorLog2 numerator denominator :=
  Int.lt_add_one_iff.mp <| (zpow_lt_zpow_iff_right₀ one_lt_two).mp
    (large.trans_lt (floorLog2_spec above below).2)

/-! ## Exact values -/

theorem roundHalfEven_mul (value : Nat) {denominator : Nat} (positive : 0 < denominator) :
    roundHalfEven (value * denominator) denominator = value := by
  simp [roundHalfEven, positive]

variable {bits : Nat}

theorem significand_lt (bits : Nat) : significand bits < 2 ^ 53 := by
  unfold significand
  split <;> simp only [hiddenBit] at * <;> omega

theorem significand_pos (positive : 0 < bits) : 0 < significand bits := by
  unfold significand
  split <;> simp only [hiddenBit] at * <;> omega

theorem le_significand (normal : binaryExponent bits ≠ -1074) :
    -1074 < binaryExponent bits ∧ 2 ^ 52 ≤ significand bits := by
  unfold binaryExponent significand at *
  split at normal
  · contradiction
  · next full =>
      rw [if_neg full, if_neg full]
      simp only [hiddenBit] at *
      omega

theorem toNat_mul_hiddenBit_add_significand (bits : Nat) :
    (binaryExponent bits + 1074).toNat * hiddenBit + significand bits = bits := by
  unfold binaryExponent significand
  split <;> simp only [hiddenBit] at * <;> omega

theorem gridExponent_of_exact (above : 0 < numerator) (below : 0 < denominator)
    (exact : (numerator : ℚ) / denominator = significand bits * 2 ^ binaryExponent bits) :
    max (-1074) (floorLog2 numerator denominator - 52) = binaryExponent bits := by
  have high : floorLog2 numerator denominator < binaryExponent bits + 53 := by
    apply floorLog2_lt above below
    rw [exact, add_comm, zpow_add₀ two_ne_zero]
    gcongr
    exact_mod_cast significand_lt bits
  -- Below the normal numbers the first bit may be anywhere, but the grid is the
  -- coarsest one.
  by_cases normal : binaryExponent bits = -1074
  · omega
  · rcases le_significand normal with ⟨larger, full⟩
    have low : binaryExponent bits + 52 ≤ floorLog2 numerator denominator := by
      apply le_floorLog2 above below
      rw [exact, add_comm, zpow_add₀ two_ne_zero]
      gcongr
      exact_mod_cast full
    omega

theorem mul_eq_of_exact (below : 0 < denominator)
    (exact : (numerator : ℚ) / denominator = significand bits * 2 ^ binaryExponent bits) :
    numerator * (scaled 1 2 (binaryExponent bits)).2 =
      significand bits * (denominator * (scaled 1 2 (binaryExponent bits)).1) := by
  have positive : (0 : ℚ) < denominator := Nat.cast_pos.mpr below
  have power := scaled_eq 1 two_pos (binaryExponent bits)
  have upper : (0 : ℚ) < (scaled 1 2 (binaryExponent bits)).2 :=
    Nat.cast_pos.mpr (scaled_pos 1 two_pos _)
  rw [Nat.cast_one, one_mul, Nat.cast_ofNat] at power
  rw [← power] at exact
  field_simp at exact
  rw [mul_left_comm, ← mul_assoc]
  exact_mod_cast exact

/-- A quotient with the exact value of a finite double is rounded to the double. -/
theorem nearest_of_exact (below : 0 < denominator) (positive : 0 < bits)
    (finite : bits < infinityBits)
    (exact : (numerator : ℚ) / denominator = significand bits * 2 ^ binaryExponent bits) :
    nearest numerator denominator = bits := by
  have above : 0 < numerator := by
    have full := significand_pos positive
    have quotientPositive : (0 : ℚ) < numerator / denominator := by
      rw [exact]
      positivity
    exact_mod_cast (div_pos_iff_of_pos_right (Nat.cast_pos.mpr below)).mp quotientPositive
  have grid : 0 < denominator * (scaled 1 2 (binaryExponent bits)).1 :=
    Nat.mul_pos below (Nat.mul_pos Nat.one_pos (Nat.pow_pos (by decide)))
  rw [nearest, if_neg above.ne']
  simp only [gridExponent_of_exact above below exact]
  rw [mul_eq_of_exact below exact, roundHalfEven_mul _ grid,
    toNat_mul_hiddenBit_add_significand, Nat.min_eq_right finite.le]

/-! ## Shortest numerals -/

theorem nearest_exactNumeral (positive : 0 < bits) (finite : bits < infinityBits) :
    (exactNumeral bits).nearest = bits := by
  have ten : 0 < 10 := by decide
  have value := scaled_eq (exactNumeral bits).digits ten (exactNumeral bits).exponent
  apply nearest_of_exact (scaled_pos _ ten _) positive finite
  refine value.trans ?_
  have powers : (10 : ℚ) ^ (-binaryExponent bits).toNat =
      2 ^ (-binaryExponent bits).toNat * 5 ^ (-binaryExponent bits).toNat := by
    rw [← mul_pow]
    norm_num
  simp only [exactNumeral, Nat.pow_eq, Nat.cast_mul, Nat.cast_pow, Nat.cast_ofNat]
  rw [zpow_neg, zpow_natCast, zpow_eq_div two_ne_zero, powers]
  field_simp

/-- The shortest numeral of a finite double reads back as the double. -/
theorem nearest_shortest (tie : Tie) (positive : 0 < bits)
    (finite : bits < infinityBits) :
    (shortest tie bits).nearest = bits := by
  simp only [shortest]
  cases found : (List.range 17).findSome? _ with
  | none => exact nearest_exactNumeral positive finite
  | some numeral =>
      rcases List.exists_of_findSome?_eq_some found with ⟨places, _, readsBack⟩
      simpa using List.find?_some readsBack

end LSystems.Decimal
