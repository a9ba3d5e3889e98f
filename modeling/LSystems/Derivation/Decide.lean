import LSystems.Derivation.Draw
import LSystems.Derivation.Plan
import LSystems.Table.Basic

/-!
# Deciding

The first phase of a step tries the rules at every position. Captured values go through
one buffer for each batch, and those of rules that are used are collected in the pool of
the batch. Whatever is read has to be there: reading behind the end of a row leaves the
phase without a result.
-/

namespace LSystems

namespace Rule

def admits? (rule : Rule) (captured globals : List Float) : Option Bool :=
  match rule.condition with
  | none => some true
  | some condition => (condition.root.evaluate? captured globals).map Operator.holds

/-- Tries a rule. The buffer keeps what an earlier attempt has left in it until the
pattern is found; then it holds the captured values, also if the condition fails on
them. -/
def attempt? (rule : Rule) (scene : Scene) (globals : List Float) (position : Nat)
    (buffer : List Float) : Option (Bool × List Float) :=
  if scene.hasShape position rule.target then
    match LeftContext.match? scene rule.left position with
    | none => some (false, buffer)
    | some left =>
      match rule.right.match? scene position with
      | none => some (false, buffer)
      | some right => do
        let rows ← (left ++ position :: right).mapM scene.word.parameters?
        let isAdmitted ← rule.admits? rows.flatten globals
        return (isAdmitted, rows.flatten)
  else some (false, buffer)

def drawAt (rule : Rule) (seed : UInt64) (step position : Nat) : Nat :=
  if rule.isStochastic then
    rule.select (Draw.sample seed (UInt64.ofNat step) (UInt64.ofNat position))
  else 0

end Rule

def searchRules? (scene : Scene) (globals : List Float) (position : Nat) :
    List Rule → List Float → Option (Option Rule × List Float)
  | [], buffer => some (none, buffer)
  | rule :: rules, buffer => do
    let (isMatch, buffer) ← rule.attempt? scene globals position buffer
    if isMatch then return (some rule, buffer)
    else searchRules? scene globals position rules buffer

namespace Decision

def kept (parameters : Nat) : Decision :=
  ⟨.keep, 1, 1, parameters⟩

def rewritten (rule : Rule) (draw : Nat) (outcome : Outcome)
    (captured : Span) : Decision :=
  ⟨.rewrite rule.id draw captured, rule.consumed, outcome.replacement.length,
    outcome.parameterCount⟩

end Decision

structure Draft where
  decisions : Array Decision
  pool : Array Float
  buffer : List Float

namespace Draft

def empty : Draft := ⟨#[], #[], []⟩

def add? (table : RuleTable) (scene : Scene) (globals : List Float)
    (seed : UInt64) (step : Nat) (draft : Draft) (position : Nat) : Option Draft := do
  let symbol ← scene.symbol? position
  let (found, buffer) ←
    searchRules? scene globals position (table.candidates symbol) draft.buffer
  match found with
  | none =>
    let place ← scene.word.places[position]?
    return { draft with decisions := draft.decisions.push (.kept place.length), buffer }
  | some rule =>
    let draw := rule.drawAt seed step position
    let outcome ← rule.outcomes[draw]?
    let captured : Span := ⟨draft.pool.size, buffer.length⟩
    return ⟨draft.decisions.push (.rewritten rule draw outcome captured),
      draft.pool ++ buffer, buffer⟩

end Draft

namespace RuleTable

def batch? (table : RuleTable) (scene : Scene) (globals : List Float)
    (seed : UInt64) (step : Nat) (start length : Nat) : Option Batch := do
  let draft ← (List.range' start length).foldlM
    (Draft.add? table scene globals seed step) .empty
  return .ofDecisions start draft.decisions.toList draft.pool

def plan? (table : RuleTable) (batchSize : Nat) (word : Word) (globals : List Float)
    (seed : UInt64) (step : Nat) : Option (List Batch) :=
  let scene := table.scene word
  (Batch.ranges batchSize word.size).mapM fun (start, length) =>
    table.batch? scene globals seed step start length

end RuleTable

end LSystems
