import LSystems.Decimal.Numeral

/-!
# The shortest numeral of a double

Among the numerals that read back as a double, the shortest is the one with the fewest
digits and, among those, the one nearest to the double. Every numeral found here has
been read back; the exact value stands in should none of up to seventeen digits do.
-/

namespace LSystems.Decimal

inductive Tie
  | upper
  | even
deriving DecidableEq, Repr

/-- Whether the numeral below a quotient goes before the one above it, when twice the
distance to it is compared with the distance between the two. -/
def Tie.prefersLower (tie : Tie) (below twice distance : Nat) : Bool :=
  twice < distance || (twice = distance && tie = even && below % 2 = 0)

def neighbours (tie : Tie) (numerator denominator : Nat) (exponent : Int) :
    List Numeral :=
  let (lower, upper) := scaled 1 10 exponent
  let dividend := numerator * upper
  let divisor := denominator * lower
  let below := dividend / divisor
  if tie.prefersLower below (2 * (dividend % divisor)) divisor then
    [⟨below, exponent⟩, ⟨below + 1, exponent⟩]
  else [⟨below + 1, exponent⟩, ⟨below, exponent⟩]

def exactNumeral (bits : Nat) : Numeral :=
  let exponent := binaryExponent bits
  ⟨significand bits * Nat.pow 2 exponent.toNat * Nat.pow 5 (-exponent).toNat,
    -(-exponent).toNat⟩

example : exactNumeral (nearest 1 8) =
    ⟨2 ^ 52 * 5 ^ 55, -55⟩ := by decide +kernel

def floorLog10 (numerator denominator : Nat) : Int :=
  let guess : Int :=
    (Nat.toDigits 10 numerator).length - (Nat.toDigits 10 denominator).length
  floorLog 10 guess numerator denominator

/-- The shortest numeral that reads back as the double with these bits, of a finite
positive double. -/
def shortest (tie : Tie) (bits : Nat) : Numeral :=
  let (numerator, denominator) := quotient bits
  let first := floorLog10 numerator denominator
  let readsBack (places : Nat) : Option Numeral :=
    ((neighbours tie numerator denominator (first - places)).map Numeral.trimZero).find?
      fun numeral => numeral.nearest = bits
  ((List.range 17).findSome? readsBack).getD (exactNumeral bits)

example : shortest .upper (nearest 1 10) = ⟨1, -1⟩ := by decide +kernel

example : shortest .upper 1 = ⟨5, -324⟩ := by decide +kernel

example : shortest .upper (nearest (10 ^ 23) 1) = ⟨1, 23⟩ := by decide +kernel

example : shortest .upper (nearest 1 (2 ^ 25)) = ⟨29802322387695313, -24⟩ ∧
    shortest .even (nearest 1 (2 ^ 25)) = ⟨29802322387695312, -24⟩ := by decide +kernel

end LSystems.Decimal

namespace LSystems

/-- How doubles are written. The digits are always the shortest ones; the rest is
layout. -/
structure FloatLayout where
  /-- Which of two equally near numerals is written. -/
  tie : Decimal.Tie
  /-- The text of a positive finite double. -/
  numeral : Numeral → List Char
  /-- The text of zero. -/
  zero : String
  /-- The text of the value that is no number. -/
  notANumber : String
  /-- The text of infinity. -/
  infinity : String

def FloatLayout.write (layout : FloatLayout) (value : Float) : String :=
  if value.isNaN then layout.notANumber
  else
    let bits := Decimal.magnitude value
    let unsigned :=
      if bits = 0 then layout.zero
      else if bits = Decimal.infinityBits then layout.infinity
      else String.ofList (layout.numeral (Decimal.shortest layout.tie bits))
    if Decimal.isNegative value then "-" ++ unsigned else unsigned

def FloatLayout.plain : FloatLayout :=
  ⟨.upper, Numeral.positional, "0", "NaN", "inf"⟩

def floatText (value : Float) : String :=
  FloatLayout.plain.write value

end LSystems
