import LSystems.Derivation.Plan
import LSystems.Table.Basic

/-!
# Writing

The last phase of a step makes a new word of its final size and divides it among the
batches. Every batch writes into its own part, slot by slot. What a batch reads has to
be there and what it writes has to lie in its part: anything else leaves the phase
without a result.
-/

namespace LSystems

inductive Write
  | symbol (slot : Nat) (value : Symbol)
  | place (slot : Nat) (value : Span)
  | parameter (slot : Nat) (value : Float)

def Cell.writes (cell : Cell) (slot : Nat) (place : Span) (first : Nat) : List Write :=
  .symbol slot cell.symbol :: .place slot place ::
    cell.parameters.mapIdx fun index value => .parameter (first + index) value

namespace Word

def blank (symbols parameters : Nat) : Word :=
  ⟨Array.replicate symbols 0, Array.replicate symbols .zero, Array.replicate parameters 0⟩

def assign : Word → Write → Word
  | ⟨symbols, places, block⟩, .symbol slot value =>
    ⟨symbols.setIfInBounds slot value, places, block⟩
  | ⟨symbols, places, block⟩, .place slot value =>
    ⟨symbols, places.setIfInBounds slot value, block⟩
  | ⟨symbols, places, block⟩, .parameter slot value =>
    ⟨symbols, places, block.setIfInBounds slot value⟩

end Word

def Decision.cells? (table : RuleTable) (word : Word) (globals : List Float)
    (pool : Array Float) (position : Nat) (decision : Decision) : Option (List Cell) :=
  match decision.action with
  | .absorbed => some []
  | .keep => do
    let symbol ← word.symbols[position]?
    let parameters ← word.parameters? position
    return [⟨symbol, parameters⟩]
  | .rewrite rule outcome captured => do
    let captured ← captured.part? pool
    let rule ← table.rules[rule]?
    let outcome ← rule.outcomes[outcome]?
    outcome.replacement.mapM fun emission => do
      let parameters ← emission.parameters.mapM (·.root.evaluate? captured globals)
      return ⟨emission.symbol, parameters⟩

/-! ## Regions -/

structure Region where
  symbols : Span
  parameters : Span

namespace Region

def split? (span : Span) (length : Nat) : Option (Span × Span) :=
  if length ≤ span.length then
    some (⟨span.offset, length⟩, ⟨span.offset + length, span.length - length⟩)
  else none

structure Division where
  regions : Array (Batch × Region)
  rest : Region

def Division.add? (division : Division) (batch : Batch) : Option Division := do
  let (symbols, symbolRest) ← split? division.rest.symbols batch.symbolCount
  let (parameters, parameterRest) ← split? division.rest.parameters batch.parameterCount
  return ⟨division.regions.push (batch, ⟨symbols, parameters⟩),
    ⟨symbolRest, parameterRest⟩⟩

end Region

/-! ## Batches -/

structure Writing where
  writes : Array Write
  symbols : Nat
  parameters : Nat

namespace Writing

/-- Writes one more cell behind the others of a region. The place that is written for
its parameters counts from the start of the new word's block, `base` parameters in front
of the region. -/
def add? (region : Region) (base : Nat) (writing : Writing) (cell : Cell) :
    Option Writing :=
  let count := cell.parameters.length
  if writing.symbols < region.symbols.length ∧
      writing.parameters + count ≤ region.parameters.length then
    let slot := region.symbols.offset + writing.symbols
    let first := region.parameters.offset + writing.parameters
    let place : Span := ⟨base + writing.parameters, count⟩
    some ⟨writing.writes ++ cell.writes slot place first, writing.symbols + 1,
      writing.parameters + count⟩
  else none

end Writing

def Batch.writes? (table : RuleTable) (word : Word) (globals : List Float) (batch : Batch)
    (region : Region) : Option (List Write) := do
  let writing ← batch.decisions.zipIdx.foldlM
    (fun writing (decision, index) => do
      let cells ← decision.cells? table word globals batch.pool (batch.start + index)
      cells.foldlM (Writing.add? region batch.parameterBase) writing)
    ⟨#[], 0, 0⟩
  return writing.writes.toList

namespace Batch.Placement

def writes? (table : RuleTable) (word : Word) (globals : List Float)
    (placement : Placement) : Option (List (List Write)) := do
  let whole : Region := ⟨⟨0, placement.symbolTotal⟩, ⟨0, placement.parameterTotal⟩⟩
  let division ← placement.batches.toList.foldlM Region.Division.add? ⟨#[], whole⟩
  division.regions.toList.mapM fun (batch, region) =>
    batch.writes? table word globals region

def blank (placement : Placement) : Word :=
  .blank placement.symbolTotal placement.parameterTotal

def word? (table : RuleTable) (word : Word) (globals : List Float)
    (placement : Placement) : Option Word := do
  let writes ← placement.writes? table word globals
  return writes.flatten.foldl Word.assign placement.blank

end Batch.Placement

end LSystems
