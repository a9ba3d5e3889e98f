import LSystems.Decimal.Binary64

/-!
# Decimal numerals

A numeral is a natural with a power of ten. This module reads numerals and lays them out
as text.
-/

namespace LSystems

/-- The number `digits * 10 ^ exponent`. -/
structure Numeral where
  digits : Nat
  exponent : Int
deriving DecidableEq, Repr

namespace Numeral

def nearest (numeral : Numeral) : Nat :=
  let (numerator, denominator) := Decimal.scaled numeral.digits 10 numeral.exponent
  Decimal.nearest numerator denominator

def toFloat (numeral : Numeral) : Float :=
  Decimal.ofMagnitude false numeral.nearest

def trimZero (numeral : Numeral) : Numeral :=
  if numeral.digits % 10 = 0 then ⟨numeral.digits / 10, numeral.exponent + 1⟩ else numeral

example : trimZero ⟨120, 3⟩ = ⟨12, 4⟩ := rfl

/-! ## Reading -/

def unsignedRange : Nat := 0x10000000000000000

def signedRange : Nat := 0x8000000000000000

def digitsValue (row : List Char) : Nat :=
  Nat.ofDigitChars 10 row 0

example : digitsValue "0123".toList = 123 := by decide +kernel

def ofDigits? (row : List Char) : Option Numeral :=
  let whole := row.takeWhile Char.isDigit
  match row.dropWhile Char.isDigit with
  | [] => if whole.isEmpty then none else some ⟨digitsValue whole, 0⟩
  | point :: fraction =>
    if point = '.' && fraction.all Char.isDigit &&
      !(whole.isEmpty && fraction.isEmpty) then
      some ⟨digitsValue (whole ++ fraction), -fraction.length⟩
    else
      none

example : ofDigits? "12.5".toList = some ⟨125, -1⟩ := by decide +kernel

example : ofDigits? "5.".toList = some ⟨5, 0⟩ := by decide +kernel

example : ofDigits? ".".toList = none ∧ ofDigits? "1.2.3".toList = none := by
  decide +kernel

def splitSign : List Char → Bool × List Char
  | '-' :: rest => (true, rest)
  | '+' :: rest => (false, rest)
  | row => (false, row)

def within64 (value : Int) : Option Int :=
  if -signedRange ≤ value && value < signedRange then some value else none

def integer? (text : String) : Option Int :=
  let (negative, row) := splitSign text.toList
  if row.isEmpty || !row.all Char.isDigit then none
  else
    let size : Int := digitsValue row
    within64 (if negative then -size else size)

example : integer? "-12" = some (-12) ∧ integer? "+" = none := by decide +kernel

/-- The double nearest to a row of digits with at most one point, times a power of ten.
A power so far out that any digits give zero or infinity is cut. -/
def scaledFloat? (negative : Bool) (row : List Char) (power : Int) : Option Float :=
  (ofDigits? row).map fun numeral =>
    let bound : Int := row.length + 400
    let numeral :=
      { numeral with exponent := numeral.exponent + max (-bound) (min bound power) }
    Decimal.ofMagnitude negative numeral.nearest

def float? (text : String) : Option Float :=
  let (negative, row) := splitSign text.toList
  let name := String.ofList (row.map Char.toLower)
  if name = "inf" || name = "infinity" then
    some (Decimal.ofMagnitude negative Decimal.infinityBits)
  else if name = "nan" then some Decimal.notANumber
  else
    match row.dropWhile fun character => character != 'e' && character != 'E' with
    | [] => scaledFloat? negative row 0
    | _ :: power =>
      let row := row.takeWhile fun character => character != 'e' && character != 'E'
      let (below, power) := splitSign power
      if power.isEmpty || !power.all Char.isDigit then none
      else
        let size : Int := digitsValue power
        scaledFloat? negative row (if below then -size else size)

/-! ## Writing -/

def insertPoint (row : List Char) (places : Nat) : List Char :=
  let padded := List.replicate (places + 1 - row.length) '0' ++ row
  padded.take (padded.length - places) ++ '.' :: padded.drop (padded.length - places)

example : insertPoint "125".toList 1 = "12.5".toList := by decide +kernel

example : insertPoint "5".toList 3 = "0.005".toList := by decide +kernel

def positional (numeral : Numeral) : List Char :=
  if 0 ≤ numeral.exponent then
    Nat.toDigits 10 (numeral.digits * Nat.pow 10 numeral.exponent.toNat)
  else
    insertPoint (Nat.toDigits 10 numeral.digits) (-numeral.exponent).toNat

example : positional ⟨25, 2⟩ = "2500".toList := by decide +kernel

def exponential (numeral : Numeral) : List Char :=
  let row := Nat.toDigits 10 numeral.digits
  let power := numeral.exponent + (row.length - 1 : Nat)
  let mantissa := if row.length = 1 then row else insertPoint row (row.length - 1)
  mantissa ++ 'e' :: (if power < 0 then '-' else '+') :: Nat.toDigits 10 power.natAbs

example : exponential ⟨125, 20⟩ = "1.25e+22".toList := by decide +kernel

def withFraction (numeral : Numeral) : List Char :=
  if 0 ≤ numeral.exponent then numeral.positional ++ ['.', '0'] else numeral.positional

end Numeral

end LSystems
