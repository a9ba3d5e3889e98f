import LSystems.Context.Left
import LSystems.Context.Right
import LSystems.Production.Basic

/-!
# Rules

A rule joins all productions with the same signature: the same target, contexts and
condition text. They are its outcomes; with more than one, a sample chooses among them
by their probabilities.
-/

namespace LSystems

structure Outcome where
  probability : Float
  replacement : List (Emission Symbol)
  /-- The place of the production in the list of productions. -/
  source : Nat

def Outcome.parameterCount (outcome : Outcome) : Nat :=
  (outcome.replacement.flatMap Emission.parameters).length

structure Rule where
  id : Nat
  target : Shape
  left : LeftContext
  right : RightContext
  condition : Option BoundExpr
  capturedCount : Nat
  outcomes : List Outcome
  text : String

namespace Rule

def specificity (rule : Rule) : Nat :=
  rule.left.length + rule.right.size

def isStochastic (rule : Rule) : Bool :=
  1 < rule.outcomes.length

def consumed (_rule : Rule) : Nat := 1

/-- The place of the first probability at which the sum of the probabilities so far, on
top of `total`, reaches the sample. The last one is taken if none does. -/
def choose (sample : Float) (total : Float) : List Float → Nat
  | [] | [_] => 0
  | probability :: rest =>
    let total := total + probability
    if sample ≤ total then 0 else choose sample total rest + 1

def select (rule : Rule) (sample : Float) : Nat :=
  choose sample 0 (rule.outcomes.map Outcome.probability)

/-! ## Matching -/

def captured (scene : Scene) (left : List Nat) (position : Nat) (right : List Nat) :
    List Float :=
  (left ++ position :: right).flatMap scene.word.parameters

def admits (rule : Rule) (captured globals : List Float) : Bool :=
  match rule.condition with
  | none => true
  | some condition => Operator.holds (condition.evaluate captured globals)

/-- The values that the pattern captures at a position, whatever the condition says of
them. -/
def captures? (rule : Rule) (scene : Scene) (position : Nat) : Option (List Float) :=
  if scene.hasShape position rule.target then
    match LeftContext.match? scene rule.left position with
    | none => none
    | some left =>
      (rule.right.match? scene position).map fun right =>
        captured scene left position right
  else none

def match? (rule : Rule) (scene : Scene) (globals : List Float) (position : Nat) :
    Option (List Float) :=
  (rule.captures? scene position).filter fun values => rule.admits values globals

end Rule

end LSystems
