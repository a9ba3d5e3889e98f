import LSystems.Datum
import LSystems.Decimal.Shortest

/-!
# Writing JSON

Data are written on one line without blanks, or with every part of a container on a line
of its own.
-/

namespace LSystems.Json

def hexDigit (value : Nat) : Char :=
  (Nat.digitChar value)

def escaped (character : Char) : List Char :=
  match character with
  | '"' => ['\\', '"']
  | '\\' => ['\\', '\\']
  | '\x08' => ['\\', 'b']
  | '\x0c' => ['\\', 'f']
  | '\n' => ['\\', 'n']
  | '\r' => ['\\', 'r']
  | '\t' => ['\\', 't']
  | character =>
    let code := character.toNat
    if code < 0x20 then ['\\', 'u', '0', '0', hexDigit (code / 16), hexDigit (code % 16)]
    else [character]

def quoted (text : String) : String :=
  String.ofList ('"' :: text.toList.flatMap escaped ++ ['"'])

example : quoted "a\"\x1f" = "\"a\\\"\\u001f\"" := by decide +kernel

/-- Numbers are written with a decimal place, and with a power of ten when the point
would be more than sixteen digits behind the first one or more than four zeros in front
of it. -/
def numeralText (numeral : Numeral) : List Char :=
  let point := numeral.exponent + (Nat.toDigits 10 numeral.digits).length
  if -5 < point && point ≤ 16 then numeral.withFraction else numeral.exponential

def layout : FloatLayout :=
  ⟨.even, numeralText, "0.0", "null", "null"⟩

def floatText (value : Float) : String :=
  if value.isInf then "null" else layout.write value

structure Spacing where
  /-- What stands in front of a part at a level. -/
  gap : Nat → String
  /-- What stands between a name and its value. -/
  colon : String

def Spacing.compact : Spacing := ⟨fun _ => "", ":"⟩

def Spacing.pretty : Spacing :=
  ⟨fun level => String.ofList ('\n' :: List.replicate (2 * level) ' '), ": "⟩

mutual

def write (spacing : Spacing) (level : Nat) : Datum → String
  | .null => "null"
  | .boolean value => if value then "true" else "false"
  | .integer value => toString value
  | .float value => floatText value
  | .string value => quoted value
  | .list [] => "[]"
  | .list (head :: tail) =>
    "[" ++ spacing.gap (level + 1) ++ write spacing (level + 1) head ++
      writeItems spacing (level + 1) tail ++ spacing.gap level ++ "]"
  | .table [] => "\x7b\x7d"
  | .table ((name, value) :: tail) =>
    "\x7b" ++ spacing.gap (level + 1) ++ quoted name ++ spacing.colon ++
      write spacing (level + 1) value ++ writeEntries spacing (level + 1) tail ++
      spacing.gap level ++ "\x7d"

def writeItems (spacing : Spacing) (level : Nat) : List Datum → String
  | [] => ""
  | head :: tail =>
    "," ++ spacing.gap level ++ write spacing level head ++ writeItems spacing level tail

def writeEntries (spacing : Spacing) (level : Nat) : List (String × Datum) → String
  | [] => ""
  | (name, value) :: tail =>
    "," ++ spacing.gap level ++ quoted name ++ spacing.colon ++
      write spacing level value ++
      writeEntries spacing level tail

end

def compact (datum : Datum) : String := write .compact 0 datum

def pretty (datum : Datum) : String := write .pretty 0 datum

example : compact (.table [("a", .list [.integer 1, .null]), ("b", .list [])]) =
    "\x7b\"a\":[1,null],\"b\":[]\x7d" := by decide +kernel

example : pretty (.list [.table [("a", .float 0.5)]]) =
    "[\n  \x7b\n    \"a\": 0.5\n  \x7d\n]" := by decide +kernel

end LSystems.Json
