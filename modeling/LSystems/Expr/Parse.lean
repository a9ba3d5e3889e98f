import LSystems.Expr.Basic
import LSystems.Expr.Token

/-!
# From tokens to expressions

Groups are nested by their parentheses. Inside a group an operator at the start or
behind another operator is a sign, and what is left has to be operands with one operator
between any two; they are joined level by level, from the left within a level.
-/

namespace LSystems

inductive GroupItem
  | operand (expr : Expr) (span : Span)
  | operator (operator : Operator) (span : Span)

namespace GroupItem

/-- The place of the first operator that is the third in a row. The start of a group
counts as an operator. -/
def thirdOperator? : (before : Nat) → List GroupItem → Option Span
  | _, [] => none
  | _, operand _ _ :: rest => thirdOperator? 0 rest
  | before, operator _ span :: rest =>
    if 2 ≤ before then some span else thirdOperator? (before + 1) rest

/-- Turns every sign and its operand into one operand. Signs are met from the right, so
that the last one that cannot be used is reported. -/
def joinSigns : (isSign : Bool) → List GroupItem → Except Error (List GroupItem)
  | _, [] => .ok []
  | _, operand expr span :: rest => do
    let rest ← joinSigns false rest
    return operand expr span :: rest
  | isSign, operator op span :: rest => do
    let rest ← joinSigns true rest
    if !isSign then return operator op span :: rest
    else if op ≠ .subtract then throw (.unreadable (.unsupportedUnary op) span)
    else
      match rest with
      | operand expr place :: rest => return operand expr.negate (span.join place) :: rest
      | _ => throw (.unreadable .strandedOperator span)

def chain? : List GroupItem → Option (Expr × List (Operator × Expr))
  | [operand expr _] => some (expr, [])
  | operand expr _ :: operator op _ :: rest => do
    let (next, more) ← chain? rest
    return (expr, (op, next) :: more)
  | _ => none

def cover : List GroupItem → Span
  | [] => Span.zero
  | [operand _ span] | [operator _ span] => span
  | operand _ span :: rest | operator _ span :: rest => span.join (cover rest)

end GroupItem

namespace Expr

def joinLevel (level : Nat) :
    Expr → List (Operator × Expr) → Expr × List (Operator × Expr)
  | first, [] => (first, [])
  | first, (operator, next) :: rest =>
    if operator.level = level then joinLevel level (combine operator first next) rest
    else
      let (next, rest) := joinLevel level next rest
      (first, (operator, next) :: rest)

/-- Joins a chain of operands, the levels that bind tighter first. -/
def joinLevels (first : Expr) (rest : List (Operator × Expr)) : Expr :=
  ((List.range Operator.levels).foldl
    (fun (first, rest) level => joinLevel level first rest) (first, rest)).1

def ofGroup (group : Span) (items : List GroupItem) : Except Error Expr := do
  if items.isEmpty then throw (.unreadable .emptyExpression group)
  if let some span := GroupItem.thirdOperator? 1 items then
    throw (.unreadable .threeOperators span)
  let items ← GroupItem.joinSigns true items
  if let some (.operator _ span) := items.getLast? then
    throw (.unreadable .missingOperand span)
  match GroupItem.chain? items with
  | some (first, rest) => return joinLevels first rest
  | none => throw (.internal .severalExpressions (GroupItem.cover items))

/-- A group whose closing parenthesis has not been met: the place of its opening
parenthesis and its members so far, the latest first. -/
structure OpenGroup where
  opened : Span
  items : List GroupItem

def OpenGroup.add (group : OpenGroup) (item : GroupItem) : OpenGroup :=
  { group with items := item :: group.items }

def readGroups (group : OpenGroup) (outer : List OpenGroup) :
    List Token → Except Error Expr
  | [] => .error (.unreadable .unclosedGroup group.opened)
  | token :: rest =>
    match token.kind with
    | .opening => readGroups ⟨token.span, []⟩ (group :: outer) rest
    | .closing =>
      let span := group.opened.join token.span
      match ofGroup span group.items.reverse, outer with
      | .error error, _ => .error error
      | .ok expr, enclosing :: outer =>
          readGroups (enclosing.add (.operand expr span)) outer rest
      | .ok expr, [] =>
        match rest with
        | [] => .ok expr
        | ⟨.closing, span⟩ :: _ => .error (.unreadable .unmatchedClosing span)
        | ⟨_, span⟩ :: _ => .error (.unreadable .trailingToken span)
    | .number value =>
        readGroups (group.add (.operand (literal value) token.span)) outer rest
    | .name name =>
        readGroups (group.add (.operand (parameter name) token.span)) outer rest
    | .operator op => readGroups (group.add (.operator op token.span)) outer rest

def ofTokens : List Token → Except Error Expr
  | [] => .error (.unreadable .emptyExpression Span.zero)
  | ⟨.opening, span⟩ :: rest => readGroups ⟨span, []⟩ [] rest
  | ⟨_, span⟩ :: _ => .error (.unreadable .notParenthesised span)

def surplusClosing? : (depth : Nat) → List Token → Option Span
  | _, [] => none
  | depth, ⟨.opening, _⟩ :: rest => surplusClosing? (depth + 1) rest
  | 0, ⟨.closing, span⟩ :: _ => some span
  | depth + 1, ⟨.closing, _⟩ :: rest => surplusClosing? depth rest
  | depth, _ :: rest => surplusClosing? depth rest

/-- An error that points at nothing, at the very start, points at the whole text
instead. -/
def widenError (length : Nat) : Error → Error
  | .unreadable fault span =>
    .unreadable fault (if span = Span.zero then ⟨0, length⟩ else span)
  | error => error

/-- The expression of a text over the declared names; the parentheses around it are
implied. -/
def parse (declared : List String) (text : List Char) : Except Error Expr := do
  let tokens ← Token.scanFrom declared 0 text
  if let some span := surplusClosing? 0 tokens then
    throw (.unreadable .unmatchedClosing span)
  let tokens := ⟨.opening, Span.zero⟩ :: tokens ++ [⟨.closing, ⟨text.length, 0⟩⟩]
  match ofTokens tokens with
  | .ok expr => return expr
  | .error error => throw (widenError text.length error)

end Expr

end LSystems
