import LSystems.Datum
import LSystems.Text.Hexadecimal

/-!
# Reading JSON

A text is one value with blanks around it. Numbers that are not integers of 64 bits are
read as doubles, in the steps stated below.
-/

namespace LSystems.Json

open Text Text.Reader

def depthLimit : Nat := 127

/-! ## Numbers -/

/-- A significand that is kept within 64 bits, with a power of ten. -/
structure Amount where
  significand : Nat
  exponent : Int
  /-- A digit did not fit any more. -/
  isFull : Bool

namespace Amount

def zero : Amount := ⟨0, 0, false⟩

/-- Takes one more digit in front of the point. Once a digit does not fit, it and those
behind it count as zeros. -/
def pushWhole (amount : Amount) (digit : Nat) : Amount :=
  let significand := amount.significand * 10 + digit
  if amount.isFull || Numeral.unsignedRange ≤ significand then
    { amount with exponent := amount.exponent + 1, isFull := true }
  else { amount with significand }

def pushFraction (amount : Amount) (digit : Nat) : Amount :=
  let significand := amount.significand * 10 + digit
  if amount.isFull || Numeral.unsignedRange ≤ significand then
    { amount with isFull := true }
  else ⟨significand, amount.exponent - 1, false⟩

def stride : Nat := 308

def power (exponent : Nat) : Float := Numeral.toFloat ⟨1, exponent⟩

def lower (value : Float) (exponent : Nat) : Float :=
  if exponent ≤ stride then value / power exponent
  else if value == 0 then value
  else lower (value / power stride) (exponent - stride)
termination_by exponent
decreasing_by simp only [stride] at *; omega

/-- The double of an amount: the significand is rounded first, and then multiplied or
divided. There is none for an amount out of range. -/
def toFloat? (amount : Amount) : Option Float :=
  let value := Numeral.toFloat ⟨amount.significand, 0⟩
  if amount.exponent ≤ 0 then some (lower value (-amount.exponent).toNat)
  else if value == 0 then some value
  else
    let scaled := value * power (min amount.exponent.toNat (stride + 1))
    if scaled.isInf then none else some scaled

end Amount

def digitValue (character : Char) : Nat :=
  character.toNat - '0'.toNat

def digits : Reader (List Char) := do
  let row ← takeWhile Char.isDigit
  guard !row.isEmpty
  return row

def fraction? : Reader (Option (List Char)) := do
  if ← accept "." then return some (← digits) else return none

def exponent? : Reader (Option Int) := do
  if (← accept "e") || (← accept "E") then
    let isNegative ← accept "-"
    if !isNegative then let _ ← accept "+"
    let size : Int := Numeral.digitsValue (← digits)
    return some (if isNegative then -size else size)
  else return none

def Amount.ofDigits (whole fraction : List Char) (exponent : Int) : Amount :=
  let front := (whole.map digitValue).foldl pushWhole zero
  let amount :=
    (fraction.map digitValue).foldl pushFraction { front with isFull := false }
  { amount with exponent := amount.exponent + exponent }

/-- The integer of 64 bits that digits stand for, if there is one. Without a minus it
has no bit for a sign, and a zero with a minus is none. -/
def integer? (isNegative : Bool) (whole : List Char) : Option Int :=
  let size := Numeral.digitsValue whole
  if isNegative then
    if 0 < size && size ≤ Numeral.signedRange then some (-size) else none
  else if size < Numeral.unsignedRange then some size
  else none

def number : Reader Datum := do
  let isNegative ← accept "-"
  let whole ← digits
  guard (whole.length = 1 || whole.head? != some '0')
  let fraction ← fraction?
  let exponent ← exponent?
  match fraction, exponent, integer? isNegative whole with
  | none, none, some value => return .integer value
  | _, _, _ =>
    let value ← liftM
      (Amount.ofDigits whole (fraction.getD []) (exponent.getD 0)).toFloat?
    return .float (if isNegative then -value else value)

/-! ## Strings -/

def codeUnits : Reader Char := do
  let first ← hex 4
  if 0xd800 ≤ first && first < 0xdc00 then
    expect "\\u"
    let second ← hex 4
    guard (0xdc00 ≤ second && second < 0xe000)
    scalar (0x10000 + (first - 0xd800) * 0x400 + (second - 0xdc00))
  else scalar first

def escape : Reader Char := do
  match ← next with
  | '"' => return '"'
  | '\\' => return '\\'
  | '/' => return '/'
  | 'b' => return '\x08'
  | 'f' => return '\x0c'
  | 'n' => return '\n'
  | 'r' => return '\r'
  | 't' => return '\t'
  | 'u' => codeUnits
  | _ => failure

def string : Reader String := do
  expect "\""
  let row ← values do
    match ← next with
    | '"' => return none
    | '\\' => return some (← escape)
    | character =>
      guard (0x20 ≤ character.toNat)
      return some character
  return String.ofList row

/-! ## Values -/

def blanks : Reader Unit := do
  let _ ← takeWhile fun character => character ∈ [' ', '\t', '\n', '\r']

def comma : Reader Bool := do
  blanks
  let isThere ← accept ","
  blanks
  return isThere

def parts {α : Type} (part : Reader α) (ending : String) : Reader (List α) := do
  blanks
  if ← accept ending then return []
  let items ← separated part comma
  expect ending
  return items

def entry (value : Reader Datum) : Reader (String × Datum) := do
  let name ← string
  blanks
  expect ":"
  blanks
  return (name, ← value)

def leaf : Reader Datum := do
  if ← accept "null" then return .null
  if ← accept "true" then return .boolean true
  if ← accept "false" then return .boolean false
  if (← peek?) = some '"' then return .string (← string)
  number

/-- A value with containers nested up to a depth. Of entries with one name the last
counts. -/
def value : (depth : Nat) → Reader Datum
  | 0 => leaf
  | depth + 1 => do
    if ← accept "[" then return .list (← parts (value depth) "]")
    if ← accept "\x7b" then
      let entries ← parts (entry (value depth)) "\x7d"
      return .table
        (entries.foldl (fun table (name, value) => Datum.insert name value table) [])
    leaf

def document : Reader Datum := do
  blanks
  let value ← value depthLimit
  blanks
  return value

def read? (text : String) : Option Datum :=
  readAll? document text

example :
    (match read? "[1, -2, \"\\u00e9\"]" with
      | some (.list [.integer 1, .integer (-2), .string "é"]) => true
      | _ => false) = true := by decide +kernel

example : (read? "[1,]").isNone ∧ (read? "01").isNone := by decide +kernel

end LSystems.Json
