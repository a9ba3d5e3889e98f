import LSystems.Derivation.Draw
import Mathlib.Data.FinEnum
import Mathlib.Data.LawfulXor.Basic
import Mathlib.Data.UInt

/-!
# Keys of draws

The mix of a word is put together from steps that each can be undone, so no two words
have one mix. Two draws that differ in their seed, their step or their position alone
have different keys. Main statement: `mix_and_key_bijective`.
-/

namespace LSystems.Draw

/-! ## Steps of the mix -/

theorem eq_zero_of_eq_shiftRight {word count : UInt64} (positive : 0 < count.toNat % 64)
    (same : word = word >>> count) : word = 0 := by
  have quotient : word.toNat = word.toNat / 2 ^ (count.toNat % 64) := by
    rw [← Nat.shiftRight_eq_div_pow, ← UInt64.toNat_shiftRight]
    exact congrArg UInt64.toNat same
  apply UInt64.toNat_inj.mp
  rw [UInt64.toNat_zero]
  by_contra nonzero
  have less :=
    Nat.div_lt_self (Nat.pos_of_ne_zero nonzero) (Nat.one_lt_two_pow positive.ne')
  exact absurd quotient less.ne'

theorem xor_shiftRight_bijective (count : UInt64) (positive : 0 < count.toNat % 64) :
    Function.Bijective fun word : UInt64 => word ^^^ (word >>> count) := by
  apply Finite.injective_iff_bijective.mp
  intro left right equal
  -- The difference of the two words is its own shift, and only zero is.
  have shifted : left ^^^ right = (left ^^^ right) >>> count := by
    apply xor_eq_zero_iff.mp
    calc (left ^^^ right) ^^^ (left ^^^ right) >>> count
        = (left ^^^ left >>> count) ^^^ (right ^^^ right >>> count) := by
          rw [UInt64.shiftRight_xor]
          ac_rfl
      _ = 0 := xor_eq_zero_iff.mpr equal
  exact xor_eq_zero_iff.mp (eq_zero_of_eq_shiftRight positive shifted)

theorem mul_bijective (factor inverse : UInt64) (undone : factor * inverse = 1) :
    Function.Bijective fun word : UInt64 => word * factor :=
  IsUnit.isUnit_iff_mulRight_bijective.mp (.of_mul_eq_one inverse undone)

theorem mix_bijective : Function.Bijective mix := by
  have added := AddGroup.addRight_bijective (0x9e3779b97f4a7c15 : UInt64)
  have first := xor_shiftRight_bijective 30 (by decide)
  have firstFactor := mul_bijective 0xbf58476d1ce4e5b9 0x96de1b173f119089 (by decide)
  have second := xor_shiftRight_bijective 27 (by decide)
  have secondFactor := mul_bijective 0x94d049bb133111eb 0x319642b2d24d8ec3 (by decide)
  have third := xor_shiftRight_bijective 31 (by decide)
  exact third.comp (secondFactor.comp (second.comp (firstFactor.comp (first.comp added))))

/-! ## Keys -/

/-- Draws do not collide along any coordinate: for any two of seed, step and position,
the third determines the key and is determined by it. The same holds of words and their
mixes. -/
theorem mix_and_key_bijective :
    Function.Bijective mix ∧
      (∀ step position, Function.Bijective fun seed => key seed step position) ∧
      (∀ seed position, Function.Bijective fun step => key seed step position) ∧
      ∀ seed step, Function.Bijective fun position => key seed step position := by
  have joined (word : UInt64) : Function.Bijective (word ^^^ ·) :=
    (xor_right_involutive word).bijective
  have joinedTo (word : UInt64) : Function.Bijective (· ^^^ word) :=
    (xor_left_involutive word).bijective
  refine ⟨mix_bijective, fun step position => ?_, fun seed position => ?_,
    fun seed step => ?_⟩
  · have mixed := mix_bijective.comp ((joinedTo step).comp mix_bijective)
    exact mix_bijective.comp ((joinedTo position).comp mixed)
  · have mixed := mix_bijective.comp (joined (mix seed))
    exact mix_bijective.comp ((joinedTo position).comp mixed)
  · exact mix_bijective.comp (joined _)

end LSystems.Draw
