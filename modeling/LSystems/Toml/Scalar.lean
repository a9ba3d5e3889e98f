import LSystems.Datum
import LSystems.Text.Hexadecimal
import LSystems.Text.Split
import LSystems.Toml.Edition

/-!
# Scalars of TOML

A scalar that is no string is a word of letters, digits and signs. It is a truth value,
an integer of 64 bits, or a double.
-/

namespace LSystems.Toml

def isBare (character : Char) : Bool :=
  character.isAlphanum || character = '_' || character = '-'

def digits? (isDigit : Char → Bool) (row : List Char) : Option (List Char) :=
  let groups := Text.splitAt '_' row
  if groups.all fun group => !group.isEmpty && group.all isDigit then some groups.flatten
  else none

example : digits? Char.isDigit "1_000".toList = some "1000".toList := by decide +kernel

example : digits? Char.isDigit "1__0".toList = none ∧
    digits? Char.isDigit "_1".toList = none := by
  decide +kernel

def wholeDigits? (row : List Char) : Option (List Char) := do
  let row ← digits? Char.isDigit row
  if row.length = 1 || row.head? != some '0' then some row else none

def integer? : List Char → Option Int
  | '0' :: 'x' :: row => do
    Numeral.within64 (← Text.hexNumber?
      (← digits? (fun digit => (Text.hexValue? digit).isSome) row))
  | '0' :: 'o' :: row => do
    Numeral.within64 (Nat.ofDigitChars 8
      (← digits? (fun digit => '0' ≤ digit && digit ≤ '7') row) 0)
  | '0' :: 'b' :: row => do
    Numeral.within64 (Nat.ofDigitChars 2
      (← digits? (fun digit => digit = '0' || digit = '1') row) 0)
  | row => do
    let (isNegative, row) := Numeral.splitSign row
    let size : Int := Numeral.digitsValue (← wholeDigits? row)
    Numeral.within64 (if isNegative then -size else size)

example : integer? "-1_0".toList = some (-10) ∧ integer? "0xFf".toList = some 255 := by
  decide +kernel

def power? (row : List Char) : Option Int := do
  let (isNegative, row) := Numeral.splitSign row
  let size : Int := Numeral.digitsValue (← digits? Char.isDigit row)
  return if isNegative then -size else size

/-- A number with a point, a power of ten, or both. One too large for a double is none,
and one too far below zero only in some editions is a double. -/
def decimal? (edition : Edition) (row : List Char) : Option Float := do
  let (isNegative, row) := Numeral.splitSign row
  let isMark (character : Char) : Bool := character = 'e' || character = 'E'
  let (digits, power) ←
    match Text.splitAt '.' (row.takeWhile (!isMark ·)), row.dropWhile (!isMark ·) with
    | [whole], _ :: power => some (← wholeDigits? whole, ← power? power)
    | [whole, fraction], power =>
      some ((← wholeDigits? whole) ++ '.' :: (← digits? Char.isDigit fraction),
        ← if power.isEmpty then some 0 else power? power.tail)
    | _, _ => none
  let value ← Numeral.scaledFloat? isNegative digits power
  if value.isInf && !(isNegative && edition.hasNegativeOverflow) then none else some value

def special? (row : List Char) : Option Float :=
  let (isNegative, row) := Numeral.splitSign row
  if row = "inf".toList then some (Decimal.ofMagnitude isNegative Decimal.infinityBits)
  else if row = "nan".toList then some Decimal.notANumber
  else none

def scalar? (edition : Edition) (word : List Char) : Option Datum :=
  if word = "true".toList then some (.boolean true)
  else if word = "false".toList then some (.boolean false)
  else
    match integer? word with
    | some value => some (.integer value)
    | none => ((special? word).orElse fun _ => decimal? edition word).map .float

example : (scalar? .first "1e3".toList).isSome ∧ (scalar? .first "1.".toList).isNone := by
  decide +kernel

example : (scalar? .first "01".toList).isNone ∧
    (scalar? .first "9223372036854775808".toList).isNone := by
  decide +kernel

example : (scalar? .first "-1e400".toList).isSome ∧
    (scalar? .second "-1e400".toList).isNone := by
  decide +kernel

end LSystems.Toml
