import LSystems.Decimal.Shortest
import LSystems.Expr.Operator

/-!
# Expressions

Trees over literals, named parameters, negation and binary operators, with their text
and their meaning under an assignment of values to names.
-/

namespace LSystems

inductive Expr
  | literal (value : Float)
  | parameter (name : String)
  | negate (operand : Expr)
  | combine (operator : Operator) (left right : Expr)

namespace Expr

def isConstant : Expr → Bool
  | literal _ => true
  | parameter _ => false
  | negate operand => operand.isConstant
  | combine _ left right => left.isConstant && right.isConstant

def addNames (known : List String) : Expr → List String
  | literal _ => known
  | parameter name => if name ∈ known then known else known ++ [name]
  | negate operand => operand.addNames known
  | combine _ left right => right.addNames (left.addNames known)

/-- The names that occur, each once, in the order of their first use. -/
def names (expr : Expr) : List String :=
  expr.addNames []

example :
    (combine .add (parameter "y") (combine .add (parameter "x") (parameter "y"))).names =
    ["y", "x"] := rfl

/-- An expression is written with parentheses around every binary operation and nowhere
else. -/
def text : Expr → String
  | literal value => floatText value
  | parameter name => name
  | negate operand => "-" ++ operand.text
  | combine operator left right =>
    "(" ++ left.text ++ " " ++ operator.symbol ++ " " ++ right.text ++ ")"

example : (combine .add (parameter "x") (negate (parameter "y"))).text = "(x + -y)" := by
  decide +kernel

def value (assignment : String → Float) : Expr → Float
  | literal value => value
  | parameter name => assignment name
  | negate operand => -operand.value assignment
  | combine operator left right =>
    operator.apply (left.value assignment) (right.value assignment)

end Expr

end LSystems
