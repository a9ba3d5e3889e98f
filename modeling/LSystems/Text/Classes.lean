import LSystems.Text.UnicodeRanges

/-!
# Character classes

Blanks separate tokens and symbols, names start with a letter or an underscore, and
digits of any script may continue a name.
-/

namespace LSystems.Text

def inRanges (ranges : List (Nat × Nat)) (character : Char) : Bool :=
  ranges.any fun (first, last) => first ≤ character.toNat && character.toNat ≤ last

/-- The characters with the property `White_Space`. -/
def isBlank (character : Char) : Bool :=
  let code := character.toNat
  if code < 0x80 then
    code == 0x20 || (0x09 ≤ code && code ≤ 0x0d)
  else
    code == 0x85 || code == 0xa0 || code == 0x1680 || (0x2000 ≤ code && code ≤ 0x200a) ||
      code == 0x2028 || code == 0x2029 || code == 0x202f || code == 0x205f ||
        code == 0x3000

/-- The characters with the property `Alphabetic`. -/
def isLetter (character : Char) : Bool :=
  if character.toNat < 0x80 then character.isAlpha
  else inRanges alphabeticRanges character

/-- The characters of the general categories `Nd`, `Nl` and `No`. -/
def isNumeral (character : Char) : Bool :=
  if character.toNat < 0x80 then character.isDigit else inRanges numericRanges character

example : isLetter 'λ' = true := by decide +kernel

example : isNumeral '²' = true := by decide +kernel

example : isLetter '😀' = false := by decide +kernel

def startsName (character : Char) : Bool :=
  isLetter character || character == '_'

def continuesName (character : Char) : Bool :=
  isLetter character || isNumeral character || character == '_'

def isName : List Char → Bool
  | [] => false
  | head :: tail => startsName head && tail.all continuesName

theorem continuesName_of_startsName {character : Char} (starts : startsName character) :
    continuesName character := by
  simp only [startsName, Bool.or_eq_true] at starts
  rcases starts with letter | underscore <;> simp [continuesName, *]

def dropBlanks (text : List Char) : List Char :=
  text.dropWhile isBlank

def trim (text : List Char) : List Char :=
  (dropBlanks (dropBlanks text).reverse).reverse

example : trim " a b ".toList = "a b".toList := by decide +kernel

theorem length_dropBlanks_le (text : List Char) :
    (dropBlanks text).length ≤ text.length :=
  (List.dropWhile_sublist isBlank).length_le

end LSystems.Text
