import LSystems.Context.Scene
import LSystems.Production.Emission
import LSystems.Production.Outline

/-!
# Productions

A production is a rule as written: an optional probability, contexts around one target,
an optional condition and a replacement. Its captured parameters are the names in its
left context, its target and its right context, in this order.
-/

namespace LSystems

structure PatternSymbol where
  letter : Char
  names : List String
  span : Span
deriving DecidableEq, Repr

def PatternSymbol.shape (code : Char → Symbol) (pattern : PatternSymbol) : Shape :=
  ⟨code pattern.letter, pattern.names.length⟩

structure Production where
  text : String
  probability : Option (Float × Span)
  left : List PatternSymbol
  target : PatternSymbol
  right : List PatternSymbol
  condition : Option BoundExpr
  replacement : List (Emission Char)
  captured : List String

namespace Production

def pattern (production : Production) : List PatternSymbol :=
  production.left ++ production.target :: production.right

def span (production : Production) : Span :=
  ⟨0, production.text.length⟩

def isStochastic (production : Production) : Bool :=
  production.probability.isSome

/-! ## Patterns -/

def readName (argument : Fragment) : Except Error String :=
  let name := Text.trim argument.text
  if Text.isName name then .ok (String.ofList name)
  else .error (.unreadable (.invalidName (String.ofList name)) argument.span)

def patternSymbol (piece : Piece) : Except Error PatternSymbol := do
  let arguments := (piece.arguments.map (Fragment.arguments false)).getD []
  let names ← arguments.mapM readName
  return ⟨piece.letter, names, piece.span⟩

def readPattern (fragment : Fragment) : Reading (List PatternSymbol) :=
  readPieces patternSymbol (cut fragment.offset fragment.text)

def readPattern? : Option Fragment → Reading (List PatternSymbol)
  | some fragment => readPattern fragment
  | none => pure []

def singleTarget (span : Span) : List PatternSymbol → Except Error PatternSymbol
  | [target] => .ok target
  | [] => .error (.unreadable .noTarget span)
  | _ => .error (.unreadable .severalTargets span)

/-- Branch symbols stand in right contexts only, without parameters and balanced. -/
def checkBranches (branches : BranchPair Char) (left : List PatternSymbol)
    (target : PatternSymbol) (right : List PatternSymbol) : Except Error Unit := do
  let isBranch (pattern : PatternSymbol) : Bool := branches.contains pattern.letter
  if isBranch target then throw (.unreadable .branchTarget target.span)
  if let some pattern := left.find? isBranch then
    throw (.unreadable .branchInLeftContext pattern.span)
  if let some pattern := (left ++ right).find?
      fun pattern => isBranch pattern && !pattern.names.isEmpty then
    throw (.unreadable .branchParameters pattern.span)
  checkBalance branches .rightContext []
    (right.map fun pattern => (pattern.letter, pattern.span))

def readContext (branches : BranchPair Char) (fragment : Fragment) :
    Reading (List PatternSymbol × PatternSymbol × List PatternSymbol) := do
  let outline ← Reading.lift (ContextOutline.ofFragment fragment)
  let left ← readPattern? outline.left
  let targets ← readPattern outline.target
  let right ← readPattern? outline.right
  let target ← Reading.lift (singleTarget outline.target.span targets)
  Reading.lift (checkBranches branches left target right)
  return (left, target, right)

/-! ## Captured parameters -/

def declarations (pattern : List PatternSymbol) : List (String × Span) :=
  pattern.flatMap fun symbol => symbol.names.map fun name => (name, symbol.span)

/-- Declares captured parameters: no name twice, and none that is a global parameter's. -/
def capture (globals known : List String) :
    List (String × Span) → Except Error (List String)
  | [] => .ok known
  | (name, span) :: rest =>
    if name ∈ known then .error (.unreadable (.repeatedName name) span)
    else if name ∈ globals then .error (.unreadable (.shadowedGlobal name) span)
    else capture globals (known ++ [name]) rest

/-! ## Whole rules -/

def readProbability : Option (List Char × Span) → Except Error (Option (Float × Span))
  | none => .ok none
  | some (inside, span) =>
    match evaluateConstant inside with
    | .ok value => .ok (some (value, span))
    | .error (.unreadable fault place) =>
      .error (.unreadable (.malformedProbability fault false place) span)
    | .error (.internal fault place) =>
      .error (.unreadable (.malformedProbability fault true place) span)
    | .error error => .error error

def readCondition (scope : Scope) : Option Fragment → Except Error (Option BoundExpr)
  | none => .ok none
  | some fragment =>
    if fragment.isBlank then .error (.unreadable .emptyCondition fragment.span)
    else
      match scope.compile fragment.text with
      | .ok expr => .ok (some expr)
      | .error error => .error (error.shift fragment.offset)

/-- Reads a rule `P(probability) | left < target > right : condition -> replacement`, of
which only the target and the arrow have to be there. -/
def read (globals : List String) (branches : BranchPair Char) (text : String) :
    Reading Production := do
  let whole : Span := ⟨0, text.length⟩
  let outline ← Reading.lift <|
    match Outline.ofText? text.toList with
    | some outline => .ok outline
    | none => .error (.unreadable .missingArrow whole)
  let probability ← Reading.lift (readProbability outline.probability)
  let (left, target, right) ← readContext branches outline.context
  let captured ← Reading.lift
    (capture globals [] (declarations (left ++ target :: right)))
  let scope ← Reading.lift (Scope.declare captured globals)
  let condition ← Reading.lift (readCondition scope outline.condition)
  let replacement ← readBalanced scope branches .replacement outline.replacement
  return { text, probability, left, target, right, condition, replacement, captured }

end Production

end LSystems
