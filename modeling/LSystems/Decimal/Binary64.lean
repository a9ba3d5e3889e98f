/-!
# Doubles as binary fractions

A finite double is `significand * 2 ^ exponent` with a significand below `2 ^ 53` and an
exponent of at least `-1074`. `nearest` finds the bits of the double next to a quotient
of naturals, and `remainder` is exact.
-/

namespace LSystems.Decimal

def roundHalfEven (numerator denominator : Nat) : Nat :=
  let whole := numerator / denominator
  let twice := 2 * (numerator % denominator)
  if twice < denominator then whole
  else if denominator < twice then whole + 1
  else whole + whole % 2

example : [5, 6, 7, 9, 10, 11].map (roundHalfEven · 4) = [1, 2, 2, 2, 2, 3] := rfl

def scaled (value base : Nat) (exponent : Int) : Nat × Nat :=
  (value * Nat.pow base exponent.toNat, Nat.pow base (-exponent).toNat)

/-- The greatest integer `exponent` for which `base ^ exponent` is at most the quotient,
from a guess that is right or one too high. -/
def floorLog (base : Nat) (guess : Int) (numerator denominator : Nat) : Int :=
  let (upper, lower) := scaled denominator base guess
  if upper ≤ numerator * lower then guess else guess - 1

def floorLog2 (numerator denominator : Nat) : Int :=
  floorLog 2 ((numerator.log2 : Int) - denominator.log2) numerator denominator

/-- The first bit of a normal significand, which is not stored. As a stored bit it is
the lowest one of the exponent field. -/
def hiddenBit : Nat := 0x10000000000000

example : hiddenBit = 2 ^ 52 := rfl

def signBit : Nat := 0x8000000000000000

example : signBit = 2 ^ 63 := rfl

def infinityBits : Nat := 0x7ff * hiddenBit

/-- The bits of the double nearest to a quotient. The significand is rounded on the grid
of the quotient's binary exponent, or on the coarsest one below normal numbers, and a
carry out of it moves into the exponent field by itself. -/
def nearest (numerator denominator : Nat) : Nat :=
  if numerator = 0 then 0
  else
    let exponent := max (-1074) (floorLog2 numerator denominator - 52)
    let (lower, upper) := scaled 1 2 exponent
    let significand := roundHalfEven (numerator * upper) (denominator * lower)
    min infinityBits ((exponent + 1074).toNat * hiddenBit + significand)

example : nearest 1 1 = 0x3ff0000000000000 := by decide +kernel

example : nearest 1 10 = 0x3fb999999999999a := by decide +kernel

example : nearest 1 (10 ^ 400) = 0 := by decide +kernel

example : nearest (10 ^ 400) 1 = infinityBits := by decide +kernel

def significand (bits : Nat) : Nat :=
  if bits / hiddenBit = 0 then bits else hiddenBit + bits % hiddenBit

def binaryExponent (bits : Nat) : Int :=
  if bits / hiddenBit = 0 then -1074 else (bits / hiddenBit : Nat) - 1075

example : significand 1 = 1 ∧ binaryExponent 1 = -1074 := by decide

def quotient (bits : Nat) : Nat × Nat :=
  scaled (significand bits) 2 (binaryExponent bits)

/-! ## Signs and special values -/

def magnitude (value : Float) : Nat :=
  value.toBits.toNat % signBit

def isNegative (value : Float) : Bool :=
  !value.isNaN && signBit ≤ value.toBits.toNat

def ofMagnitude (negative : Bool) (bits : Nat) : Float :=
  Float.ofBits (UInt64.ofNat (if negative then signBit + bits else bits))

def notANumber : Float := Float.ofBits 0x7ff8000000000000

def infinity : Float := ofMagnitude false infinityBits

/-- What is left of `dividend` after taking away `divisor` as often as its magnitude
allows, with the sign of `dividend`. The result is exact: both are multiples of the
smaller of the two powers of two. -/
def remainder (dividend divisor : Float) : Float :=
  if dividend.isNaN || divisor.isNaN || dividend.isInf || divisor == 0 then notANumber
  else if divisor.isInf then dividend
  else
    let left := magnitude dividend
    let right := magnitude divisor
    let exponent := min (binaryExponent left) (binaryExponent right)
    let dividendUnits :=
      significand left * Nat.pow 2 (binaryExponent left - exponent).toNat
    let divisorUnits :=
      significand right * Nat.pow 2 (binaryExponent right - exponent).toNat
    let (numerator, denominator) := scaled (dividendUnits % divisorUnits) 2 exponent
    ofMagnitude (isNegative dividend) (nearest numerator denominator)

end LSystems.Decimal
