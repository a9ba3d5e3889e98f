import LSystems.Expr.Operator
import LSystems.Decimal.Shortest
import LSystems.Text.Span

/-!
# Errors

An error is a cause together with the places it points at. The wording of every cause
stands here; `render` shows the places inside the text in which the error was found.
-/

namespace LSystems

inductive Section
  | initialWord
  | rightContext
  | replacement
deriving DecidableEq, Repr

def Section.text : Section → String
  | initialWord => "axiom"
  | rightContext => "suffix context"
  | replacement => "replacement"

inductive Fault
  | malformedNumber (row : String)
  | unknownName (name : String)
  | unknownOperator (character : Char)
  | emptyExpression
  | notParenthesised
  | unmatchedClosing
  | trailingToken
  | unclosedGroup
  | threeOperators
  | unsupportedUnary (operator : Operator)
  | strandedOperator
  | missingOperand
  | severalExpressions
  | unresolvedName (name : String)
  | repeatedName (name : String)
  | parenthesisSymbol
  | reservedSymbol (character : Char)
  | unusableSymbol (character : Char)
  | unclosedArguments
  | invalidName (name : String)
  | surplusClosing (place : Section)
  | surplusOpening (place : Section)
  | missingArrow
  | secondLeftContext
  | secondRightContext
  | contextOrder
  | noTarget
  | severalTargets
  | branchTarget
  | branchInLeftContext
  | branchParameters
  | shadowedGlobal (name : String)
  | emptyCondition
  | malformedProbability (fault : Fault) (isInternal : Bool) (span : Span)
  | inRule (index : Nat) (fault : Fault)
  | stated (message : String)
deriving DecidableEq, Repr

def faultHeading (isInternal : Bool) (span : Span) : String :=
  (if isInternal then "Internal compiler error" else "Syntax error") ++ " at " ++
    span.text ++ ": "

def Fault.message : Fault → String
  | malformedNumber row => s!"Malformed number \"{row}\""
  | unknownName name =>
    s!"Token \"{name}\" is neither a numeric value, a variable, nor a syntactical token"
  | unknownOperator character => s!"Unrecognized operator '{character}'"
  | emptyExpression => "Empty expression is not allowed"
  | notParenthesised => "Expression must begin with '('"
  | unmatchedClosing => "Unmatched closing parenthesis"
  | trailingToken => "Unexpected token after closing parenthesis"
  | unclosedGroup => "Unexpected end of input, missing closing parenthesis"
  | threeOperators => "3 consecutive operators detected"
  | unsupportedUnary operator => s!"Unsupported unary operator '{operator.symbol}'"
  | strandedOperator => "Stranded operator"
  | missingOperand => "Operator is missing an operand"
  | severalExpressions => "token string could not compile to one expression"
  | unresolvedName name => s!"Unresolved parameter \"{name}\""
  | repeatedName name => s!"Attempted to declare the parameter \"{name}\" twice"
  | parenthesisSymbol => "Parentheses cannot be used as symbols"
  | reservedSymbol character => s!"Unexpected '{character}'"
  | unusableSymbol character => s!"'{character}' cannot be used as a symbol"
  | unclosedArguments => "Unexpected end of input. Are you missing a parenthesis?"
  | invalidName name => s!"\"{name}\" is not a valid parameter name"
  | surplusClosing place => s!"Too many closing branch symbols in {place.text}"
  | surplusOpening place => s!"Too many opening branch symbols in {place.text}"
  | missingArrow => "Rule must contain '->'"
  | secondLeftContext => "Only one prefix context is allowed"
  | secondRightContext => "Only one suffix context is allowed"
  | contextOrder => "Prefix context must come before the suffix context"
  | noTarget => "Rule has no target symbol"
  | severalTargets => "Multi-symbol targets are not supported"
  | branchTarget => "Branch symbols cannot be rule targets"
  | branchInLeftContext => "Branch symbols are not allowed in a prefix context"
  | branchParameters => "Branch symbols cannot capture parameters"
  | shadowedGlobal name => s!"Parameter \"{name}\" shadows a global parameter"
  | emptyCondition => "Condition after ':' is empty"
  | malformedProbability fault isInternal span =>
    "Malformed probability annotation: " ++ faultHeading isInternal span ++ fault.message
  | inRule index fault => s!"rule {index}: " ++ fault.message
  | stated message => message

inductive GroupFault
  | severalDeterministic (rules : List Nat)
  | partlyStochastic (rules : List Nat)
  | negativeProbability (rule : Nat)
  | probabilitySum (rules : List Nat) (total : Float)
  | stated (message : String)

def enumerate (numbers : List Nat) : String :=
  ", ".intercalate (numbers.map toString)

example : enumerate [0, 1, 12] = "0, 1, 12" := by decide +kernel

def GroupFault.message : GroupFault → String
  | severalDeterministic rules =>
    s!"rules {enumerate rules} are deterministic and match the same symbols, " ++
      "context and condition"
  | partlyStochastic rules =>
    s!"rules {enumerate rules} share a signature but only some carry a probability"
  | negativeProbability rule => s!"rule {rule} has a negative probability"
  | probabilitySum rules total =>
    s!"probabilities of rules {enumerate rules} sum to {floatText total}, expected 1"
  | stated message => message

inductive WordFault
  | lengths (symbols parameters : Nat)
  | surplusClosing (count : Nat)
  | surplusOpening (count : Nat)
  /-- A step has read or written behind the end of a row, which stops it. -/
  | outOfRange
  | stated (message : String)
deriving DecidableEq, Repr

def WordFault.message : WordFault → String
  | lengths symbols parameters => s!"{symbols} symbols but {parameters} parameter vectors"
  | surplusClosing count => s!"Too many closing branch symbols ({count} unmatched)"
  | surplusOpening count => s!"Too many opening branch symbols ({count} unmatched)"
  | outOfRange => "index out of range"
  | stated message => message

inductive SettingsFault
  | emptyAxiomText
  | repeatedGlobal (name : String)
  | equalBranchSymbols
  | unusableBranchSymbol (character : Char)
  | ignoredBranchSymbol (character : Char)
  | toleranceRange
  | emptyBatch
  | noWorkers
  | notRead
  | notLoaded
  | notParsed
  | notWritten
  | notSerialised
  | stated (message : String)
deriving DecidableEq, Repr

def SettingsFault.message : SettingsFault → String
  | emptyAxiomText => "Axiom must not be empty"
  | repeatedGlobal name => s!"Global parameter '{name}' is declared twice"
  | equalBranchSymbols => "Branch open and close symbols must differ"
  | unusableBranchSymbol character => s!"'{character}' cannot be used as a branch symbol"
  | ignoredBranchSymbol character => s!"Branch symbol '{character}' cannot be ignored"
  | toleranceRange => "Probability epsilon must be between 0 and 1"
  | emptyBatch => "Batch size must be at least 1"
  | noWorkers => "Worker thread count must be at least 1"
  | notRead => "Failed to read config: there is no such file"
  | notLoaded => "Failed to load config: the file is missing or malformed"
  | notParsed => "Failed to parse config: a value is missing or malformed"
  | notWritten => "Failed to write config: the file cannot be written"
  | notSerialised => "Failed to serialize: a number is out of range"
  | stated message => message

inductive Error
  /-- A text that cannot be read. -/
  | unreadable (fault : Fault) (span : Span)
  /-- A text whose tokens were read and do not make one expression. -/
  | internal (fault : Fault) (span : Span)
  | probability (fault : GroupFault) (spans : List Span)
  | conflict (fault : GroupFault) (spans : List Span)
  | parameterCount (expected actual : Nat)
  | malformedWord (fault : WordFault)
  | cancelled (step : Nat)
  | configuration (fault : SettingsFault)

namespace Error

def message : Error → String
  | unreadable fault span => faultHeading false span ++ fault.message
  | internal fault span => faultHeading true span ++ fault.message
  | probability fault _ => "Probability error: " ++ fault.message
  | conflict fault _ => "Rule conflict: " ++ fault.message
  | parameterCount expected actual =>
    s!"Global parameter mismatch: expected {expected}, got {actual}"
  | malformedWord fault => "Malformed symbol string: " ++ fault.message
  | cancelled step => s!"Step {step} was cancelled"
  | configuration fault => "Configuration error: " ++ fault.message

def spans : Error → List Span
  | unreadable _ span | internal _ span => [span]
  | probability _ spans | conflict _ spans => spans
  | _ => []

/-- An error found in a fragment, seen from the text that has `distance` characters in
front of the fragment. -/
def shift (distance : Nat) : Error → Error
  | unreadable fault span => unreadable fault (span.shift distance)
  | internal fault span => internal fault (span.shift distance)
  | probability fault spans => probability fault (spans.map (·.shift distance))
  | conflict fault spans => conflict fault (spans.map (·.shift distance))
  | error => error

def inRule (index : Nat) : Error → Error
  | unreadable fault span => unreadable (.inRule index fault) span
  | internal fault span => internal (.inRule index fault) span
  | error => error

def mark (source : List Char) (span : Span) : String :=
  String.ofList <|
    source.take span.offset ++ ">>".toList ++ span.slice source ++ "<<".toList ++
      source.drop span.stop

def render (source : String) (error : Error) : String :=
  error.message ++
    String.join (error.spans.map fun span => "\n  " ++ mark source.toList span)

example : render "A -> (B" (.unreadable (.stated "bad thing") ⟨2, 3⟩) =
    "Syntax error at 2..5: bad thing\n  A >>-> <<(B" := by decide +kernel

end Error

end LSystems
