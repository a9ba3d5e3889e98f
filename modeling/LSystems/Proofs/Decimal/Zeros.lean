import LSystems.Proofs.Decimal.Doubles

/-!
# Adding zeros to doubles

A sum with a zero compares like the other summand: at most the sign of a zero changes,
which no comparison sees. A double that is neither less than zero nor greater is such a
zero.
-/

namespace LSystems.Decimal

open Float.Model Float.Model.UnpackedFloat

/-! ## Unpacked doubles -/

theorem unpack_pack_unpack (bits : BitVec Format.binary64.numBits) :
    UnpackedFloat.unpack .binary64
        (UnpackedFloat.pack .binary64 (UnpackedFloat.unpack .binary64 bits)) =
      UnpackedFloat.unpack .binary64 bits := by
  by_cases finite : HasFiniteExponent bits.toNat
  · rw [BitVec.eq_of_toNat_eq (toNat_pack_unpack bits finite)]
  · rw [← isFinite_unpack_iff] at finite
    cases unpacked : UnpackedFloat.unpack .binary64 bits with
    | infinity sign => cases sign <;> rfl
    | notANumber => rfl
    | zero sign => simp [unpacked, UnpackedFloat.isFinite] at finite
    | finite sign mantissa exponent => simp [unpacked, UnpackedFloat.isFinite] at finite

theorem unpack_pack_zero (sign : Sign) :
    UnpackedFloat.unpack .binary64 (UnpackedFloat.pack .binary64 (.zero sign)) =
      .zero sign := by
  cases sign <;> rfl

theorem compare_zero (left : UnpackedFloat) (sign other : Sign) :
    left.compare (.zero sign) = left.compare (.zero other) := by
  cases left with
  | finite leftSign => cases leftSign <;> rfl
  | infinity leftSign => cases leftSign <;> rfl
  | _ => rfl

theorem zero_compare (right : UnpackedFloat) (sign other : Sign) :
    (UnpackedFloat.zero sign).compare right =
      (UnpackedFloat.zero other).compare right := by
  cases right with
  | finite rightSign => cases rightSign <;> rfl
  | infinity rightSign => cases rightSign <;> rfl
  | _ => rfl

theorem add_zero_cases (value : UnpackedFloat) (sign : Sign) :
    (value.add .binary64 (.zero sign) = value ∧
      (UnpackedFloat.zero sign).add .binary64 value = value) ∨
    ∃ valueSign sumSign, value = .zero valueSign ∧
      value.add .binary64 (.zero sign) = .zero sumSign ∧
      (UnpackedFloat.zero sign).add .binary64 value = .zero sumSign := by
  cases value with
  | zero valueSign => cases valueSign <;> cases sign <;> exact .inr ⟨_, _, rfl, rfl, rfl⟩
  | _ => exact .inl ⟨rfl, rfl⟩

theorem eq_zero_of_le {value : UnpackedFloat}
    (notNegative : (zero .positive).le value = true)
    (notPositive : ¬ (zero .positive).lt value = true) : ∃ sign, value = .zero sign := by
  cases value with
  | zero sign => exact ⟨sign, rfl⟩
  | notANumber => contradiction
  | infinity sign => cases sign <;> contradiction
  | finite sign => cases sign <;> contradiction

theorem not_le_of_zero_lt {value : UnpackedFloat}
    (positive : (zero .positive).lt value = true) :
    ¬ value.le (zero .positive) = true := by
  intro notPositive
  cases value with
  | zero sign => contradiction
  | notANumber => contradiction
  | infinity sign => cases sign <;> contradiction
  | finite sign => cases sign <;> contradiction

/-! ## Comparisons -/

variable {sample value total : Float}

theorem le_iff {left right : Float} :
    left ≤ right ↔ left.toModel.unpack.le right.toModel.unpack = true :=
  decide_eq_true_iff

theorem lt_iff {left right : Float} :
    left < right ↔ left.toModel.unpack.lt right.toModel.unpack = true :=
  decide_eq_true_iff

theorem unpack_zero : (0 : Float).toModel.unpack = .zero .positive :=
  rfl

theorem unpack_add (left right : Float) :
    (left + right).toModel.unpack =
      UnpackedFloat.unpack .binary64 (UnpackedFloat.pack .binary64
        (left.toModel.unpack.add .binary64 right.toModel.unpack)) :=
  rfl

theorem exists_unpack_eq_zero (notNegative : 0 ≤ value) (notPositive : ¬ 0 < value) :
    ∃ sign, value.toModel.unpack = .zero sign :=
  eq_zero_of_le (le_iff.mp notNegative)
    (fun positive => notPositive (lt_iff.mpr positive))

private theorem le_of_unpack_eq {left right : Float}
    (same : left.toModel.unpack = right.toModel.unpack ∨
      ∃ sign other, left.toModel.unpack = .zero sign ∧
        right.toModel.unpack = .zero other) :
    sample ≤ left ↔ sample ≤ right := by
  rw [le_iff, le_iff, UnpackedFloat.le, UnpackedFloat.le]
  rcases same with same | ⟨sign, other, isLeft, isRight⟩
  · rw [same]
  · rw [isLeft, isRight, compare_zero _ sign other]

theorem le_add_iff_of_zero (notNegative : 0 ≤ value) (notPositive : ¬ 0 < value) :
    sample ≤ total + value ↔ sample ≤ total := by
  rcases exists_unpack_eq_zero notNegative notPositive with ⟨sign, isZero⟩
  apply le_of_unpack_eq
  rw [unpack_add, isZero]
  rcases add_zero_cases total.toModel.unpack sign with
    ⟨same, _⟩ | ⟨other, sum, isTotal, isSum, _⟩
  · rw [same]
    exact .inl (unpack_pack_unpack _)
  · rw [isSum]
    exact .inr ⟨sum, other, unpack_pack_zero sum, isTotal⟩

theorem le_zero_add_iff : sample ≤ 0 + value ↔ sample ≤ value := by
  apply le_of_unpack_eq
  rw [unpack_add, unpack_zero]
  rcases add_zero_cases value.toModel.unpack .positive with
    ⟨_, same⟩ | ⟨other, sum, isValue, _, isSum⟩
  · rw [same]
    exact .inl (unpack_pack_unpack _)
  · rw [isSum]
    exact .inr ⟨sum, other, unpack_pack_zero sum, isValue⟩

theorem le_of_not_pos (isSample : 0 ≤ sample) (notPositive : ¬ 0 < sample)
    (notNegative : 0 ≤ value) : sample ≤ value := by
  rcases exists_unpack_eq_zero isSample notPositive with ⟨sign, isZero⟩
  rw [le_iff, UnpackedFloat.le, unpack_zero] at notNegative
  rw [le_iff, UnpackedFloat.le, isZero, zero_compare _ sign .positive]
  exact notNegative

theorem not_le_zero (positive : 0 < sample) : ¬ sample ≤ 0 :=
  fun notPositive => not_le_of_zero_lt (lt_iff.mp positive) (le_iff.mp notPositive)

end LSystems.Decimal
