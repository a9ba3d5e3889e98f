import LSystems.Decimal.Binary64
import Mathlib

/-!
# Bits of finite doubles

A finite double is its sign and its magnitude, and negation changes the sign and nothing
else. The logical model of doubles keeps them as bits, but unpacks them for every
operation; this module packs what has been unpacked.
-/

namespace LSystems.Decimal

open Float.Model Float.Model.UnpackedFloat

/-! ## Fields -/

theorem toNat_append {front back : Nat} (left : BitVec front) (right : BitVec back) :
    (left ++ right).toNat = left.toNat * 2 ^ back + right.toNat := by
  rw [BitVec.toNat_append, ← Nat.shiftLeft_add_eq_or_of_lt right.isLt, Nat.shiftLeft_eq]

theorem toNat_packComponents (sign : Sign) (exponent : BitVec 11) (mantissa : BitVec 52) :
    (packComponents .binary64 sign exponent mantissa).toNat =
      (sign.toBitVec.toNat * 2 ^ 11 + exponent.toNat) * 2 ^ 52 + mantissa.toNat := by
  rw [← toNat_append, ← toNat_append]
  rfl

variable (bits : BitVec Format.binary64.numBits)

theorem toNat_unpackMantissa : (unpackMantissa bits).toNat = bits.toNat % 2 ^ 52 := by
  simp [unpackMantissa, BitVec.extractLsb]

theorem toNat_unpackExponent :
    (unpackExponent bits).toNat = bits.toNat / 2 ^ 52 % 2 ^ 11 := by
  simp [unpackExponent, BitVec.extractLsb, Nat.shiftRight_eq_div_pow]

theorem toNat_unpackSign : (unpackSign bits).toNat = bits.toNat / 2 ^ 63 := by
  have inside : bits.toNat < 2 ^ 64 := bits.isLt
  simp [unpackSign, BitVec.extractLsb, Nat.shiftRight_eq_div_pow]
  omega

theorem toBitVec_ofBitVec (sign : BitVec 1) : (Sign.ofBitVec sign).toBitVec = sign := by
  revert sign
  decide

/-! ## Packing -/

variable {bits}

theorem pack_subnormal (sign : Sign) (mantissa : BitVec 52)
    (positive : 0 < mantissa.toNat) :
    UnpackedFloat.pack .binary64 (.finite sign mantissa.toNat (-1074) positive) =
      packComponents .binary64 sign 0 mantissa := by
  have small : mantissa.toNat.log2 < 52 :=
    (Nat.log2_lt (Nat.ne_of_gt positive)).mpr mantissa.isLt
  have notNormal : ¬ mantissa.toNat.log2 + 1 = Format.binary64.mantissaBits := by
    change ¬ mantissa.toNat.log2 + 1 = 53
    omega
  simp only [UnpackedFloat.pack]
  rw [if_neg (by decide), if_neg notNormal, BitVec.ofNat_toNat, BitVec.setWidth_eq]
  rfl

theorem pack_normal (sign : Sign) {exponent : BitVec 11} (mantissa : BitVec 52)
    (notLast : exponent.toNat ≠ 2047) (positive : 0 < (1#1 ++ mantissa).toNat) :
    UnpackedFloat.pack .binary64
        (.finite sign (1#1 ++ mantissa).toNat (exponent.toNat - 1075) positive) =
      packComponents .binary64 sign exponent mantissa := by
  have exponentBound := exponent.isLt
  have mantissaBound := mantissa.isLt
  have whole : (1#1 ++ mantissa).toNat = 2 ^ 52 + mantissa.toNat :=
    toNat_append 1#1 mantissa
  have normal : (1#1 ++ mantissa).toNat.log2 + 1 = Format.binary64.mantissaBits := by
    have log : (1#1 ++ mantissa).toNat.log2 = 52 := by
      apply (Nat.log2_eq_iff (Nat.ne_of_gt positive)).mpr
      omega
    rw [log]
    rfl
  have biased : ((exponent.toNat : Int) - 1075 + Format.binary64.exponentBias +
      Format.binary64.mantissaBitsWithoutImplicit).toNat = exponent.toNat := by
    change ((exponent.toNat : Int) - 1075 + 1023 + 52).toNat = exponent.toNat
    omega
  have kept : BitVec.ofNat 52 (1#1 ++ mantissa).toNat = mantissa := by
    apply BitVec.eq_of_toNat_eq
    rw [whole, BitVec.toNat_ofNat, Nat.add_mod_left, Nat.mod_eq_of_lt mantissaBound]
  have noOverflow : ¬ 2 ^ Format.binary64.exponentBits ≤ exponent.toNat + 1 := by
    change ¬ 2 ^ 11 ≤ exponent.toNat + 1
    omega
  simp only [UnpackedFloat.pack, biased]
  rw [if_neg noOverflow, if_pos normal, kept, BitVec.ofNat_toNat, BitVec.setWidth_eq]

def HasFiniteExponent (bits : Nat) : Prop :=
  bits / 2 ^ 52 % 2 ^ 11 ≠ 2047

theorem exists_signed (finite : HasFiniteExponent bits.toNat) :
    ∃ signed : Sign → UnpackedFloat,
      UnpackedFloat.unpack .binary64 bits = signed (Sign.ofBitVec (unpackSign bits)) ∧
      ∀ sign, (signed sign).neg = signed (-sign) ∧ (signed sign).isFinite = true ∧
        UnpackedFloat.pack .binary64 (signed sign) =
          packComponents .binary64 sign (unpackExponent bits) (unpackMantissa bits) := by
  have notLast : (unpackExponent bits).toNat ≠ 2047 := by
    rw [toNat_unpackExponent]
    exact finite
  have notOnes : unpackExponent bits ≠ -1#11 := by
    intro isOnes
    rw [isOnes] at notLast
    exact notLast rfl
  -- An empty exponent field stands for zero and for the subnormals, which have no
  -- hidden bit.
  by_cases isZero : unpackExponent bits = 0#11
  · by_cases noMantissa : unpackMantissa bits = 0#52
    · refine ⟨.zero, ?_, fun sign => ⟨rfl, rfl, ?_⟩⟩
      · simp [UnpackedFloat.unpack, isZero, noMantissa]
      · rw [isZero, noMantissa]
        rfl
    · have positive : 0 < (unpackMantissa bits).toNat := by
        simpa [BitVec.toNat_pos, BitVec.pos_iff_ne_zero] using noMantissa
      refine ⟨fun sign => .finite sign _ (-1074) positive, ?_, fun sign => ⟨rfl, rfl, ?_⟩⟩
      · simp [UnpackedFloat.unpack, isZero, noMantissa, Format.exponentBias]
      · rw [isZero]
        exact pack_subnormal sign _ positive
  · have positive : 0 < (1#1 ++ unpackMantissa bits).toNat := by
      rw [toNat_append]
      exact Nat.lt_add_right _ (by decide)
    refine ⟨fun sign => .finite sign _ ((unpackExponent bits).toNat - 1075) positive, ?_,
      fun sign => ⟨rfl, rfl, pack_normal sign _ notLast positive⟩⟩
    have notOnes : unpackExponent bits ≠ -1#(Format.binary64.exponentBits) := notOnes
    have isZero : unpackExponent bits ≠ 0#(Format.binary64.exponentBits) := isZero
    rw [UnpackedFloat.unpack, if_neg notOnes, if_neg isZero]
    rfl

theorem toNat_pack_unpack (bits : BitVec Format.binary64.numBits)
    (finite : HasFiniteExponent bits.toNat) :
    (UnpackedFloat.pack .binary64 (UnpackedFloat.unpack .binary64 bits)).toNat =
      bits.toNat := by
  have inside : bits.toNat < 2 ^ 64 := bits.isLt
  rcases exists_signed finite with ⟨signed, isSigned, law⟩
  rw [isSigned, (law _).2.2, toNat_packComponents, toBitVec_ofBitVec, toNat_unpackSign,
    toNat_unpackExponent, toNat_unpackMantissa]
  omega

theorem toNat_pack_neg_unpack (finite : HasFiniteExponent bits.toNat) :
    (UnpackedFloat.pack .binary64 (UnpackedFloat.unpack .binary64 bits).neg).toNat =
      (bits.toNat + 2 ^ 63) % 2 ^ 64 := by
  have inside : bits.toNat < 2 ^ 64 := bits.isLt
  have flip (sign : BitVec 1) :
      (-Sign.ofBitVec sign).toBitVec.toNat = (sign.toNat + 1) % 2 := by
    revert sign
    decide
  rcases exists_signed finite with ⟨signed, isSigned, law⟩
  rw [isSigned, (law _).1, (law _).2.2, toNat_packComponents, flip, toNat_unpackSign,
    toNat_unpackExponent, toNat_unpackMantissa]
  omega

theorem isFinite_unpack_iff :
    (UnpackedFloat.unpack .binary64 bits).isFinite = true ↔
    HasFiniteExponent bits.toNat := by
  constructor
  · intro finite last
    have isOnes : unpackExponent bits = -1#(Format.binary64.exponentBits) := by
      apply BitVec.eq_of_toNat_eq
      rw [toNat_unpackExponent]
      exact last
    rw [UnpackedFloat.unpack, if_pos isOnes] at finite
    split at finite <;> contradiction
  · intro finite
    rcases exists_signed finite with ⟨signed, isSigned, law⟩
    rw [isSigned]
    exact (law _).2.1

/-! ## Doubles -/

theorem eq_of_toBits {left right : Float}
    (same : left.toBits.toNat = right.toBits.toNat) :
    left = right := by
  rcases left with ⟨⟨left, _⟩⟩
  rcases right with ⟨⟨right, _⟩⟩
  cases UInt64.toNat_inj.mp (same : left.toNat = right.toNat)
  rfl

theorem toNat_toBits_ofBits {bits : Nat} (inside : bits < 2 ^ 64)
    (finite : HasFiniteExponent bits) :
    (Float.ofBits (UInt64.ofNat bits)).toBits.toNat = bits := by
  have kept : (UInt64.ofNat bits).toBitVec.toNat = bits :=
    UInt64.toNat_ofNat_of_lt' inside
  have packed := toNat_pack_unpack (UInt64.ofNat bits).toBitVec
  rw [kept] at packed
  exact packed finite

theorem isFinite_iff {value : Float} :
    value.isFinite = true ↔ HasFiniteExponent value.toBits.toNat :=
  isFinite_unpack_iff

theorem toNat_toBits_neg {value : Float} (finite : value.isFinite = true) :
    (-value).toBits.toNat = (value.toBits.toNat + 2 ^ 63) % 2 ^ 64 :=
  toNat_pack_neg_unpack (isFinite_iff.mp finite)

/-! ## Signs and magnitudes -/

section Finite

variable {value : Float} (finite : value.isFinite = true)
include finite

theorem isNaN_of_isFinite : value.isNaN = false := by
  change (UnpackedFloat.unpack .binary64 value.toBits.toBitVec).isFinite = true at finite
  change (UnpackedFloat.unpack .binary64 value.toBits.toBitVec).isNaN = false
  revert finite
  cases UnpackedFloat.unpack .binary64 value.toBits.toBitVec <;>
    simp [UnpackedFloat.isFinite, UnpackedFloat.isNaN]

theorem magnitude_lt_infinityBits : magnitude value < infinityBits := by
  have inside : value.toBits.toNat < 2 ^ 64 := value.toBits.toNat_lt
  have exponent := isFinite_iff.mp finite
  simp only [HasFiniteExponent, magnitude, signBit, infinityBits, hiddenBit] at *
  omega

theorem ofMagnitude_magnitude :
    ofMagnitude (isNegative value) (magnitude value) = value := by
  have inside : value.toBits.toNat < 2 ^ 64 := value.toBits.toNat_lt
  have exponent := isFinite_iff.mp finite
  have sign : isNegative value = decide (signBit ≤ value.toBits.toNat) := by
    rw [isNegative, isNaN_of_isFinite finite, Bool.not_false, Bool.true_and]
  have whole : (if isNegative value then signBit + magnitude value else magnitude value) =
      value.toBits.toNat := by
    by_cases negative : signBit ≤ value.toBits.toNat <;>
      simp only [sign, negative, magnitude]
    · simp only [signBit, decide_true, if_true] at *
      omega
    · simp only [signBit, decide_false, Bool.false_eq_true, if_false] at *
      omega
  rw [ofMagnitude, whole]
  exact eq_of_toBits (toNat_toBits_ofBits inside exponent)

end Finite

variable {bits : Nat}

theorem toNat_toBits_ofMagnitude (inside : bits < infinityBits) (negative : Bool) :
    (ofMagnitude negative bits).toBits.toNat =
      if negative then signBit + bits else bits := by
  simp only [infinityBits, hiddenBit] at inside
  apply toNat_toBits_ofBits
  all_goals
    simp only [HasFiniteExponent, signBit]
    split <;> omega

theorem neg_ofMagnitude (inside : bits < infinityBits) :
    -ofMagnitude false bits = ofMagnitude true bits := by
  have kept := toNat_toBits_ofMagnitude inside
  have finite : (ofMagnitude false bits).isFinite = true := by
    apply isFinite_iff.mpr
    rw [kept]
    simp only [HasFiniteExponent, infinityBits, hiddenBit, Bool.false_eq_true,
      if_false] at *
    omega
  apply eq_of_toBits
  rw [toNat_toBits_neg finite, kept, kept]
  simp only [infinityBits, hiddenBit, signBit, Bool.false_eq_true, if_false, if_true] at *
  omega

end LSystems.Decimal
