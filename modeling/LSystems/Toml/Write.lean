import LSystems.Datum
import LSystems.Decimal.Shortest
import LSystems.Toml.Scalar

/-!
# Writing TOML

Each key stands on a line of its own with its value. A string stands between the first
quotes, of four kinds, that spare it escapes, and between double quotes if none do.
-/

namespace LSystems.Toml

/-! ## Strings -/

def isControl (character : Char) : Bool :=
  character.toNat < 0x20 || character.toNat = 0x7f

def longestRow (quote : Char) (count : Nat) : List Char → Nat
  | [] => count
  | head :: tail =>
    if head = quote then longestRow quote (count + 1) tail
    else max count (longestRow quote 0 tail)

example : longestRow '\'' 0 "a''b'".toList = 2 := by decide +kernel

inductive Quotes
  /-- Double quotes, between which characters are escaped. -/
  | basic
  /-- Single quotes, between which all characters stand for themselves. -/
  | literal
  /-- Three double quotes, between which lines may end. -/
  | longBasic
  /-- Three single quotes, between which lines may end. -/
  | longLiteral
deriving DecidableEq, Repr

namespace Quotes

def text : Quotes → String
  | basic => "\""
  | literal => "'"
  | longBasic => "\"\"\""
  | longLiteral => "'''"

def isLong : Quotes → Bool
  | basic | literal => false
  | longBasic | longLiteral => true

def isBasic : Quotes → Bool
  | basic | longBasic => true
  | literal | longLiteral => false

def character (quotes : Quotes) : Char :=
  if quotes.isBasic then '"' else '\''

def limit (quotes : Quotes) : Nat :=
  if quotes.isLong then 2 else 0

def suits (quotes : Quotes) (row : List Char) : Bool :=
  row.all (fun character =>
    if character = '\n' then quotes.isLong
    else if character = '\\' then !quotes.isBasic
    else character = '\t' || !isControl character) &&
  longestRow quotes.character 0 row ≤ quotes.limit

def ofText (row : List Char) : Quotes :=
  match [basic, literal, longBasic, longLiteral].find? fun quotes => quotes.suits row with
  | some quotes => quotes
  | none => if row.contains '\n' then longBasic else basic

example : ofText "it's".toList = basic ∧ ofText "A\\B".toList = literal := by
  decide +kernel

example : ofText "'\"".toList = longBasic ∧ ofText "\\'".toList = longLiteral := by
  decide +kernel

end Quotes

def escaped (isLong : Bool) (character : Char) : List Char :=
  match character with
  | '\\' => ['\\', '\\']
  | '\x08' => ['\\', 'b']
  | '\t' => ['\\', 't']
  | '\n' => if isLong then ['\n'] else ['\\', 'n']
  | '\x0c' => ['\\', 'f']
  | '\r' => ['\\', 'r']
  | character =>
    if isControl character then
      let code := character.toNat
      ['\\', 'u', '0', '0', (Nat.digitChar (code / 16)).toUpper,
        (Nat.digitChar (code % 16)).toUpper]
    else [character]

/-- A text between double quotes, when `count` quotes that are not escaped stand right
in front of it. Only a quote that is one too many is escaped. -/
def escapedRow (quotes : Quotes) (count : Nat) : List Char → List Char
  | [] => []
  | '"' :: tail =>
    if count < quotes.limit then '"' :: escapedRow quotes (count + 1) tail
    else '\\' :: '"' :: escapedRow quotes 0 tail
  | head :: tail => escaped quotes.isLong head ++ escapedRow quotes 0 tail

def quoted (text : String) : String :=
  let row := text.toList
  let quotes := Quotes.ofText row
  let inner := if quotes.isBasic then String.ofList (escapedRow quotes 0 row) else text
  let start := if row.contains '\n' then "\n" else ""
  quotes.text ++ (if quotes.isLong then start else "") ++ inner ++ quotes.text

example : quoted "it's" = "\"it's\"" ∧ quoted "A\\B" = "'A\\B'" := by decide +kernel

example : quoted "\x01'\\" = "\"\\u0001'\\\\\"" := by decide +kernel

example : quoted "\x01\n\"\"\"" = "\"\"\"\n\\u0001\n\"\"\\\"\"\"\"" := by decide +kernel

/-! ## Values -/

def layout : FloatLayout :=
  ⟨.upper, Numeral.withFraction, "0.0", "nan", "inf"⟩

def nameText (name : String) : String :=
  if name != "" && name.toList.all isBare then name else quoted name

mutual

/-- The text of a value. A list of several items has each of them on a line of its own,
and what is null has no text. -/
def write : Datum → String
  | .null => ""
  | .boolean value => if value then "true" else "false"
  | .integer value => toString value
  | .float value => layout.write value
  | .string value => quoted value
  | .list items =>
    if 2 ≤ items.length then "[" ++ String.join (writeLines items) ++ "\n]"
    else "[" ++ String.join (writeItems items) ++ "]"
  | .table [] => "\x7b\x7d"
  | .table entries => "\x7b " ++ ", ".intercalate (writeEntries entries) ++ " \x7d"

def writeItems : List Datum → List String
  | [] => []
  | head :: tail => write head :: writeItems tail

def writeLines : List Datum → List String
  | [] => []
  | head :: tail => ("\n    " ++ write head ++ ",") :: writeLines tail

def writeEntries : List (String × Datum) → List String
  | [] => []
  | (name, value) :: rest => (nameText name ++ " = " ++ write value) :: writeEntries rest

end

def line : String × Datum → String
  | (_, .null) => ""
  | (name, value) => nameText name ++ " = " ++ write value ++ "\n"

def block (header : String) (entries : List (String × Datum)) : String :=
  header ++ "\n" ++ String.join (entries.map line)

def joinBlocks (blocks : List String) : String :=
  "\n".intercalate blocks

example :
    block "[a]" [("b", .list [.integer 1, .integer 2]), ("c", .list []), ("d", .null)] =
    "[a]\nb = [\n    1,\n    2,\n]\nc = []\n" := by decide +kernel

end LSystems.Toml
