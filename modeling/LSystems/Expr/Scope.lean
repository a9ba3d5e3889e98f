import LSystems.Expr.Parse

/-!
# Scopes and bound expressions

A scope declares the captured parameters of a rule and the global parameters of its
system, every name once. Binding an expression to a scope replaces its names by slots; a
bound expression is evaluated on the values of the captured parameters and those of the
global ones.
-/

namespace LSystems

/-- The names that expressions may use: captured parameters, then global ones. -/
structure Scope where
  captured : List String
  globals : List String

inductive Slots
  | literal (value : Float)
  | captured (place : Nat)
  | global (place : Nat)
  | negate (operand : Slots)
  | combine (operator : Operator) (left right : Slots)

namespace Slots

/-- The value on lists of values. A place behind the end of its list has no number for a
value. -/
def evaluate (captured globals : List Float) : Slots → Float
  | literal value => value
  | .captured place => captured[place]?.getD Decimal.notANumber
  | global place => globals[place]?.getD Decimal.notANumber
  | negate operand => -operand.evaluate captured globals
  | combine operator left right =>
    operator.apply (left.evaluate captured globals) (right.evaluate captured globals)

def evaluate? (captured globals : List Float) : Slots → Option Float
  | literal value => some value
  | .captured place => captured[place]?
  | global place => globals[place]?
  | negate operand => return -(← operand.evaluate? captured globals)
  | combine operator left right =>
    return operator.apply (← left.evaluate? captured globals)
      (← right.evaluate? captured globals)

def InRange (captured globals : Nat) : Slots → Prop
  | literal _ => True
  | .captured place => place < captured
  | global place => place < globals
  | negate operand => operand.InRange captured globals
  | combine _ left right => left.InRange captured globals ∧ right.InRange captured globals

end Slots

structure BoundExpr where
  source : Expr
  root : Slots

namespace BoundExpr

def evaluate (expr : BoundExpr) (captured globals : List Float) : Float :=
  expr.root.evaluate captured globals

def isConstant (expr : BoundExpr) : Bool :=
  match expr.root with
  | .literal _ => true
  | _ => false

end BoundExpr

namespace Scope

def empty : Scope := ⟨[], []⟩

def names (scope : Scope) : List String :=
  scope.captured ++ scope.globals

def firstRepeated? (known : List String) : List String → Option String
  | [] => none
  | name :: rest =>
      if name ∈ known then some name else firstRepeated? (name :: known) rest

def declare (captured globals : List String) : Except Error Scope :=
  match firstRepeated? [] (captured ++ globals) with
  | some name => .error (.unreadable (.repeatedName name) Span.zero)
  | none => .ok ⟨captured, globals⟩

def parse (scope : Scope) (text : List Char) : Except Error Expr :=
  Expr.parse scope.names text

def slot? (scope : Scope) (name : String) : Option Slots :=
  match scope.captured.idxOf? name with
  | some place => some (.captured place)
  | none => (scope.globals.idxOf? name).map .global

def resolve (scope : Scope) : Expr → Except Error Slots
  | .literal value => .ok (.literal value)
  | .parameter name =>
    match scope.slot? name with
    | some slot => .ok slot
    | none => .error (.unreadable (.unresolvedName name) Span.zero)
  | .negate operand => return .negate (← scope.resolve operand)
  | .combine operator left right =>
    return .combine operator (← scope.resolve left) (← scope.resolve right)

/-- Binds an expression to the scope. One without parameters is evaluated once and for
all. -/
def bind (scope : Scope) (expr : Expr) : Except Error BoundExpr := do
  let root ← scope.resolve expr
  if expr.isConstant then return ⟨expr, .literal (root.evaluate [] [])⟩
  else return ⟨expr, root⟩

def compile (scope : Scope) (text : List Char) : Except Error BoundExpr := do
  scope.bind (← scope.parse text)

end Scope

def evaluateConstant (text : List Char) : Except Error Float := do
  return (← Scope.empty.compile text).evaluate [] []

end LSystems
