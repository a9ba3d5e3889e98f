import LSystems.Datum
import LSystems.Decimal.Shortest

/-!
# Conversions

A conversion says which data stand for truth values, naturals, doubles and strings. The
exact one takes data for what they are. The loose one also takes them for what they
mean, since the value of an environment variable is a word before it is anything else.
-/

namespace LSystems

structure Conversion where
  boolean? : Datum → Option Bool
  natural? : Datum → Option Nat
  float? : Datum → Option Float
  string? : Datum → Option String

def Decimal.ofInt (value : Int) : Float :=
  ofMagnitude (value < 0) (nearest value.natAbs 1)

/-- A double rounded to a natural of 64 bits; a half goes up, and what is out of range
goes to the nearer end of it. -/
def Decimal.round64 (value : Float) : Nat :=
  if value.isNaN || isNegative value then 0
  else
    let (numerator, denominator) := quotient (magnitude value)
    min (Numeral.unsignedRange - 1) ((2 * numerator + denominator) / (2 * denominator))

namespace Conversion

def yesWords : List String := ["true", "on", "yes"]

def noWords : List String := ["false", "off", "no"]

def meaning? (word : String) : Option Bool :=
  let word := String.ofList (word.toList.map Char.toLower)
  if yesWords.contains word then some true
  else if noWords.contains word then some false
  else none

def naturalText? (text : String) : Option Nat :=
  let row := match text.toList with
    | '+' :: row => row
    | row => row
  let value := Numeral.digitsValue row
  if row.isEmpty || !row.all Char.isDigit || Numeral.unsignedRange ≤ value then none
  else some value

/-- Data stand for what they are, and integers also for doubles. -/
def exact : Conversion where
  boolean?
    | .boolean value => some value
    | _ => none
  natural?
    | .integer value => value.toNat?
    | _ => none
  float?
    | .float value => some value
    | .integer value => some (Decimal.ofInt value)
    | _ => none
  string?
    | .string value => some value
    | _ => none

def loose : Conversion where
  boolean?
    | .boolean value => some value
    | .integer value => some (value != 0)
    | .float value => some (value != 0)
    | .string "1" => some true
    | .string "0" => some false
    | .string text => meaning? text
    | _ => none
  natural?
    | .boolean value => some value.toNat
    | .integer value => value.toNat?
    | .float value => some (Decimal.round64 value)
    | .string text => ((meaning? text).map Bool.toNat).orElse fun _ => naturalText? text
    | _ => none
  float?
    | .boolean value => some (Decimal.ofInt value.toNat)
    | .integer value => some (Decimal.ofInt value)
    | .float value => some value
    | .string text =>
      ((meaning? text).map fun value => Decimal.ofInt value.toNat).orElse fun _ =>
        Numeral.float? text
    | _ => none
  string?
    | .boolean value => some (toString value)
    | .integer value => some (toString value)
    | .float value => some (floatText value)
    | .string text => some text
    | _ => none

example :
    loose.natural? (.string "YES") = some 1 ∧ exact.natural? (.string "1") = none := by
  decide +kernel

example :
    loose.natural? (.float 2.5) = some 3 ∧ loose.natural? (.integer (-1)) = none := by
  decide +kernel

end Conversion

end LSystems
