import LSystems.Text.Hexadecimal
import LSystems.Toml.Scalar
import LSystems.Toml.Tree

/-!
# Reading TOML

A text gives values to keys line by line, first for the table that it is as a whole,
then below each header for the table of the header.
-/

namespace LSystems.Toml

open Text Text.Reader

/-! ## Between values -/

def isPlain (character : Char) : Bool :=
  character = '\t' || (0x20 ≤ character.toNat && character.toNat != 0x7f)

def isBlankInLine (character : Char) : Bool :=
  character = ' ' || character = '\t'

def blanks : Reader Unit := do
  let _ ← takeWhile isBlankInLine

def comment : Reader Unit := do
  if ← accept "#" then
    let _ ← takeWhile isPlain

def lineEnds : List String := ["\n", "\x0d\n"]

def lineEnd? : Reader (Option String) :=
  lineEnds.findM? accept

def lineEnd : Reader Bool := do
  return (← lineEnd?).isSome

def restOfLine : Reader Unit := do
  blanks
  comment
  if !(← lineEnd) then guard (← get).isEmpty

def gaps : Reader Unit := do
  let _ ← values do
    blanks
    comment
    if ← lineEnd then return some () else return none

/-! ## Strings -/

def escape (edition : Edition) : Reader Char := do
  match ← next with
  | '"' => return '"'
  | '\\' => return '\\'
  | 'b' => return '\x08'
  | 'f' => return '\x0c'
  | 'n' => return '\n'
  | 'r' => return '\r'
  | 't' => return '\t'
  | 'u' => scalar (← hex 4)
  | 'U' => scalar (← hex 8)
  | 'e' => guard edition.hasShortEscapes; return '\x1b'
  | 'x' => guard edition.hasShortEscapes; scalar (← hex 2)
  | _ => failure

def basicRest (edition : Edition) : Reader String := do
  let row ← values do
    match ← next with
    | '"' => return none
    | '\\' => return some (← escape edition)
    | character =>
      guard (isPlain character)
      return some character
  return String.ofList row

def literalRest : Reader String := do
  let row ← takeWhile fun character => isPlain character && character != '\''
  expect "'"
  return String.ofList row

/-- The rest of a string of several lines, between three quotes each. An end of a line
right behind the first quotes does not count, and up to two quotes may stand right in
front of the last ones. -/
def linesRest (edition : Edition) (quote : Char) (piece : Reader (List Char)) :
    Reader String := do
  let _ ← lineEnd
  let pieces ← values do
    if ← accept (String.ofList [quote, quote, quote]) then return none
    if let some ending ← lineEnd? then
      return some (if edition.keepsLineEnds then ending.toList else ['\n'])
    return some (← piece)
  let surplus ← takeWhile fun character => character = quote
  guard (surplus.length ≤ 2)
  return String.ofList (pieces.flatten ++ surplus)

def plain : Reader (List Char) := do
  let character ← next
  guard (isPlain character)
  return [character]

/-- A character, or a backslash at the end of a line, which joins the line to the next
text. -/
def escapedPiece (edition : Edition) : Reader (List Char) := do
  if ← accept "\\" then
    let behind ← get
    blanks
    if ← lineEnd then
      gapsInText
      return []
    else
      set behind
      return [← escape edition]
  else plain
where
  /-- Blanks and ends of lines. -/
  gapsInText : Reader Unit := do
    let _ ← values do
      blanks
      if ← lineEnd then return some () else return none

def string? (edition : Edition) : Reader (Option String) := do
  if ← accept "\"\"\"" then return some (← linesRest edition '"' (escapedPiece edition))
  if ← accept "'''" then return some (← linesRest edition '\'' plain)
  if ← accept "\"" then return some (← basicRest edition)
  if ← accept "'" then return some (← literalRest)
  return none

/-! ## Keys and values -/

def name (edition : Edition) : Reader String := do
  if ← accept "\"" then return ← basicRest edition
  if ← accept "'" then return ← literalRest
  let row ← takeWhile isBare
  guard !row.isEmpty
  return String.ofList row

def point : Reader Bool := do
  blanks
  let isThere ← accept "."
  blanks
  return isThere

def key (edition : Edition) : Reader (List String) := do
  let names ← separated (name edition) point
  guard (names.length ≤ edition.depthLimit)
  return names

def assignment (edition : Edition) (gap : Reader Unit) (value : Reader Datum) :
    Reader (List String × Datum) := do
  let key ← key edition
  gap
  expect "="
  gap
  return (key, ← value)

def leaf (edition : Edition) : Reader Datum := do
  match ← string? edition with
  | some text => return .string text
  | none =>
    let word ← takeWhile fun character =>
      isBare character || character = '+' || character = '.'
    liftM (scalar? edition word)

/-- The parts of a list or a table up to its end, with gaps around them and a comma
behind each. The last one may go without a comma, and has to where `mayTrail` does not
hold. -/
def parts {α : Type} (gap : Reader Unit) (mayTrail : Bool) (ending : Char)
    (part : Reader α) : Reader (List α) := do
  gap
  let parts ← values do
    if (← peek?) = some ending then return none
    let part ← part
    gap
    let isFollowed ← accept ","
    gap
    if (← peek?) = some ending then guard (mayTrail || !isFollowed) else guard isFollowed
    return some part
  expect (String.singleton ending)
  return parts

def list (value : Reader Datum) : Reader Datum := do
  return .list (← parts gaps true ']' value)

def inlineTable (edition : Edition) (value : Reader Datum) : Reader Datum := do
  let gap := if edition.spansLines then gaps else blanks
  let body ← parts gap edition.spansLines '\x7d' (assignment edition gap value)
  return .table (Node.entryData (← liftM (Entries.defineAll edition body [])))

def value (edition : Edition) : (depth : Nat) → Reader Datum
  | 0 => leaf edition
  | depth + 1 => do
    if ← accept "[" then return ← list (value edition depth)
    if ← accept "\x7b" then return ← inlineTable edition (value edition depth)
    leaf edition

/-! ## Documents -/

def body (edition : Edition) : Reader (List (List String × Datum)) :=
  values do
    gaps
    match ← peek? with
    | none | some '[' => return none
    | some _ =>
      blanks
      let line ← assignment edition blanks (value edition edition.depthLimit)
      restOfLine
      return some line

structure Block where
  header : List String
  isRepeated : Bool
  body : List (List String × Datum)

def block? (edition : Edition) : Reader (Option Block) := do
  if (← peek?).isNone then return none
  let isRepeated ← accept "[["
  if !isRepeated then expect "["
  blanks
  let header ← key edition
  blanks
  expect (if isRepeated then "]]" else "]")
  restOfLine
  return some { header, isRepeated, body := ← body edition }

def document (edition : Edition) : Reader Datum := do
  let _ ← accept "\ufeff"
  let entries ← liftM (Entries.defineAll edition (← body edition) [])
  let blocks ← values (block? edition)
  let entries ← liftM (blocks.foldlM (fun entries block =>
    Entries.openTable edition block.isRepeated block.body block.header entries) entries)
  return .table (Node.entryData entries)

def read? (edition : Edition) (text : String) : Option Datum :=
  readAll? (document edition) text

example :
    (match read? .first "[a.b]\nc = [1, 2,]\n[a]\nd.e = 'x'" with
      | some (.table [("a", .table [("b", .table [("c", .list [.integer 1, .integer 2])]),
          ("d", .table [("e", .string "x")])])]) => true
      | _ => false) = true := by decide +kernel

example : (read? .first "[a]\n[a]").isNone ∧ (read? .first "a = 1\na = 2").isNone := by
  decide +kernel

example : (read? .first "a = \x7b b = 1, \x7d").isNone ∧
    (read? .second "a = \x7b b = 1, \x7d").isSome := by
  decide +kernel

end LSystems.Toml
