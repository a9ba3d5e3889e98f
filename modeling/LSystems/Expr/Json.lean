import LSystems.Expr.Basic
import LSystems.Json.Read
import LSystems.Json.Write

/-!
# Expressions as data

Each kind of expression is a table with one entry, named for the kind. What is written
can be read back unless it holds a literal that is no number or is nested deeper than
texts may be.
-/

namespace LSystems

def Operator.name : Operator → String
  | power => "Exponent"
  | multiply => "Multiply"
  | divide => "Divide"
  | remainder => "Remainder"
  | add => "Add"
  | subtract => "Subtract"
  | greater => "GreaterThan"
  | less => "LessThan"
  | greaterEqual => "GreaterThanOrEq"
  | lessEqual => "LessThanOrEq"
  | equal => "Equal"
  | notEqual => "NotEqual"
  | both => "BooleanAnd"
  | either => "BooleanOr"

def Operator.ofName? (name : String) : Option Operator :=
  all.find? fun operator => operator.name = name

theorem Operator.ofName?_name (operator : Operator) :
    ofName? operator.name = some operator := by
  cases operator <;> decide +kernel

namespace Expr

def negationName : String := "Negate"

def datum : Expr → Datum
  | literal value => .table [("Constant", .float value)]
  | parameter name => .table [("Variable", .string name)]
  | negate operand =>
    .table [("Unary", .table [("op", .string negationName), ("operand", operand.datum)])]
  | combine operator left right =>
    .table [("Binary", .table
      [("op", .string operator.name), ("lhs", left.datum), ("rhs", right.datum)])]

def ofDatum? : Datum → Option Expr
  | .table [("Constant", .float value)] => some (literal value)
  | .table [("Variable", .string name)] => some (parameter name)
  | .table [("Unary", .table [("op", .string name), ("operand", operand)])] =>
    if name = negationName then (ofDatum? operand).map negate else none
  | .table
      [("Binary", .table [("op", .string name), ("lhs", left), ("rhs", right)])] => do
    return combine (← Operator.ofName? name) (← ofDatum? left) (← ofDatum? right)
  | _ => none

theorem ofDatum?_datum (expr : Expr) : ofDatum? expr.datum = some expr := by
  induction expr with
  | literal => simp [datum, ofDatum?]
  | parameter => simp [datum, ofDatum?]
  | negate operand induction => simp [datum, ofDatum?, induction]
  | combine operator left right left_induction right_induction =>
    simp [datum, ofDatum?, left_induction, right_induction, Operator.ofName?_name]

def json (expr : Expr) : String := Json.compact expr.datum

def ofJson? (text : String) : Option Expr := (Json.read? text).bind ofDatum?

/-- Trees of one shape with equal names and operators, and with literals that compare
equal. -/
def same : Expr → Expr → Bool
  | literal left, literal right => left == right
  | parameter left, parameter right => left = right
  | negate left, negate right => left.same right
  | combine left first second, combine right first' second' =>
    left = right && first.same first' && second.same second'
  | _, _ => false

end Expr

end LSystems
