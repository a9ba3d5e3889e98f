import LSystems.Text.Reader

/-!
# Hexadecimal numbers

Characters are named by numbers in hexadecimal digits.
-/

namespace LSystems.Text

def hexValue? (character : Char) : Option Nat :=
  if character.isDigit then some (character.toNat - '0'.toNat)
  else if 'a' ≤ character ∧ character ≤ 'f' then some (character.toNat - 'a'.toNat + 10)
  else if 'A' ≤ character ∧ character ≤ 'F' then some (character.toNat - 'A'.toNat + 10)
  else none

def hexNumber? (row : List Char) : Option Nat := do
  return (← row.mapM hexValue?).foldl (fun value digit => 16 * value + digit) 0

example : hexNumber? "Ff".toList = some 255 ∧ hexNumber? "g".toList = none := by
  decide +kernel

namespace Reader

def hex (count : Nat) : Reader Nat := do
  liftM (hexNumber? (← take count))

def scalar (code : Nat) : Reader Char :=
  if code.isValidChar then return Char.ofNat code else failure

end Reader

end LSystems.Text
