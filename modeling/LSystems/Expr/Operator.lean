import LSystems.Decimal.Binary64

/-!
# Binary operators

Operators compute on doubles. Comparisons and connectives answer one for true and zero
for false, and connectives take every value above zero for true.
-/

namespace LSystems

inductive Operator
  | power
  | multiply
  | divide
  | remainder
  | add
  | subtract
  | greater
  | less
  | greaterEqual
  | lessEqual
  | equal
  | notEqual
  | both
  | either
deriving DecidableEq, Repr

namespace Operator

def all : List Operator :=
  [power, multiply, divide, remainder, add, subtract, greater, less, greaterEqual,
    lessEqual, equal, notEqual, both, either]

/-- The level of an operator; a lower level binds tighter. -/
def level : Operator → Nat
  | power => 0
  | multiply | divide | remainder => 1
  | add | subtract => 2
  | greater | less | greaterEqual | lessEqual => 3
  | equal | notEqual => 4
  | both => 5
  | either => 6

def levels : Nat := 7

theorem level_lt (operator : Operator) : operator.level < levels := by
  cases operator <;> decide

def symbol : Operator → String
  | power => "^"
  | multiply => "*"
  | divide => "/"
  | remainder => "%"
  | add => "+"
  | subtract => "-"
  | greater => ">"
  | less => "<"
  | greaterEqual => ">="
  | lessEqual => "<="
  | equal => "=="
  | notEqual => "!="
  | both => "&&"
  | either => "||"

def ofChar? : Char → Option Operator
  | '>' => some greater
  | '<' => some less
  | '+' => some add
  | '-' => some subtract
  | '*' => some multiply
  | '/' => some divide
  | '%' => some remainder
  | '^' => some power
  | _ => none

def ofChars? : Char → Char → Option Operator
  | '>', '=' => some greaterEqual
  | '<', '=' => some lessEqual
  | '=', '=' => some equal
  | '!', '=' => some notEqual
  | '&', '&' => some both
  | '|', '|' => some either
  | _, _ => none

def truth (value : Bool) : Float :=
  if value then 1 else 0

def holds (value : Float) : Bool :=
  decide (0 < value)

def apply (operator : Operator) (left right : Float) : Float :=
  match operator with
  | power => left.pow right
  | multiply => left * right
  | divide => left / right
  | remainder => Decimal.remainder left right
  | add => left + right
  | subtract => left - right
  | greater => truth (decide (right < left))
  | less => truth (decide (left < right))
  | greaterEqual => truth (decide (right ≤ left))
  | lessEqual => truth (decide (left ≤ right))
  | equal => truth (left == right)
  | notEqual => truth (left != right)
  | both => truth (holds left && holds right)
  | either => truth (holds left || holds right)

end Operator

end LSystems
