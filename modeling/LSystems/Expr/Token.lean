import LSystems.Error
import LSystems.Text.Classes
import LSystems.Decimal.Numeral

/-!
# Tokens of expressions

A text is cut into operators, parentheses, numbers and declared names; blanks stand
between tokens. Runs of digits and points and runs of name characters are taken as long
as possible, and so are operators.
-/

namespace LSystems

inductive TokenKind
  | operator (operator : Operator)
  | opening
  | closing
  | number (value : Float)
  | name (name : String)

structure Token where
  kind : TokenKind
  span : Span

namespace Token

def inNumber (character : Char) : Bool :=
  character.isDigit || character == '.'

def mark? (head : Char) (tail : List Char) : Option (TokenKind × Nat) :=
  match tail.head?.bind (Operator.ofChars? head) with
  | some operator => some (.operator operator, 2)
  | none =>
    match Operator.ofChar? head with
    | some operator => some (.operator operator, 1)
    | none =>
      if head = '(' then some (.opening, 1)
      else if head = ')' then some (.closing, 1)
      else none

/-- The token that starts a text, or what is wrong there, with its length. The text
starts with `head`, which is no blank. -/
def first (declared : List String) (head : Char) (tail : List Char) :
    Except Fault TokenKind × Nat :=
  if inNumber head then
    let row := (head :: tail).takeWhile inNumber
    match Numeral.ofDigits? row with
    | some numeral => (.ok (.number numeral.toFloat), row.length)
    | none => (.error (.malformedNumber (String.ofList row)), row.length)
  else if Text.startsName head then
    let row := (head :: tail).takeWhile Text.continuesName
    let name := String.ofList row
    (if name ∈ declared then .ok (.name name) else .error (.unknownName name), row.length)
  else
    match mark? head tail with
    | some (kind, length) => (.ok kind, length)
    | none => (.error (.unknownOperator head), 1)

def scanFrom (declared : List String) (offset : Nat) :
    List Char → Except Error (List Token)
  | [] => .ok []
  | head :: tail =>
    if Text.isBlank head then scanFrom declared (offset + 1) tail
    else
      match first declared head tail with
      | (.error fault, length) => .error (.unreadable fault ⟨offset, length⟩)
      | (.ok kind, length) =>
        match scanFrom declared (offset + length) (tail.drop (length - 1)) with
        | .error error => .error error
        | .ok rest => .ok (⟨kind, ⟨offset, length⟩⟩ :: rest)
termination_by text => text.length
decreasing_by all_goals simp [List.length_drop]; try omega

def scan (declared : List String) (text : String) : Except Error (List Token) :=
  scanFrom declared 0 text.toList

end Token

end LSystems
