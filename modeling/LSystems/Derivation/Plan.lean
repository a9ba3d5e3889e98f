import LSystems.Text.Span

/-!
# Plans

A step first decides for every position what becomes of it, batch by batch, and then
places the batches in the new word. A decision may take up more than one position; those
behind its own are then absorbed, also across the end of a batch.
-/

namespace LSystems

inductive Action
  /-- The cell stays as it is. -/
  | keep
  /-- An outcome of a rule takes its place. The captured values lie in the pool of the
  batch. -/
  | rewrite (rule outcome : Nat) (captured : Span)
  /-- Nothing is left of it, since the decision at an earlier position has taken it up. -/
  | absorbed
deriving DecidableEq, Repr

structure Decision where
  action : Action
  /-- How many positions the decision takes up, its own among them. -/
  consumed : Nat
  /-- How many symbols it makes. -/
  symbols : Nat
  /-- How many parameters it makes. -/
  parameters : Nat
deriving DecidableEq, Repr

def Decision.isRewrite (decision : Decision) : Bool :=
  match decision.action with
  | .rewrite _ _ _ => true
  | _ => false

def Decision.absorb (decision : Decision) : Decision :=
  { decision with action := .absorbed, symbols := 0, parameters := 0 }

/-- Decisions for positions in a row, the values that they captured, and where what they
make lies in the new word. -/
structure Batch where
  start : Nat
  decisions : List Decision
  pool : Array Float
  symbolCount : Nat
  parameterCount : Nat
  /-- The number of parameters that all earlier batches make. -/
  parameterBase : Nat

namespace Batch

def ofDecisions (start : Nat) (decisions : List Decision) (pool : Array Float) : Batch :=
  ⟨start, decisions, pool, 0, 0, 0⟩

def ranges (batchSize length : Nat) : List (Nat × Nat) :=
  let size := max 1 batchSize
  (List.range ((length + size - 1) / size)).map fun index =>
    (index * size, min size (length - index * size))

example : ranges 4 10 = [(0, 4), (4, 4), (8, 2)] := by decide

/-! ## Placing -/

/-- What has been found about the decisions so far: how many more positions are taken
up, the decisions with the absorbed ones marked, and the sizes of what they make. -/
structure Tally where
  pending : Nat
  decisions : Array Decision
  symbolCount : Nat
  parameterCount : Nat

def Tally.add (tally : Tally) (decision : Decision) : Tally :=
  match tally.pending with
  | pending + 1 =>
      { tally with pending, decisions := tally.decisions.push decision.absorb }
  | 0 =>
    { pending := decision.consumed - 1
      decisions := tally.decisions.push decision
      symbolCount := tally.symbolCount + decision.symbols
      parameterCount := tally.parameterCount + decision.parameters }

structure Placement where
  batches : Array Batch
  pending : Nat
  symbolTotal : Nat
  parameterTotal : Nat

def Placement.add (placement : Placement) (batch : Batch) : Placement :=
  let tally := batch.decisions.foldl Tally.add ⟨placement.pending, #[], 0, 0⟩
  { batches := placement.batches.push
      { batch with
        decisions := tally.decisions.toList
        symbolCount := tally.symbolCount
        parameterCount := tally.parameterCount
        parameterBase := placement.parameterTotal }
    pending := tally.pending
    symbolTotal := placement.symbolTotal + tally.symbolCount
    parameterTotal := placement.parameterTotal + tally.parameterCount }

/-- Marks absorbed positions and places the batches one behind another. -/
def place (batches : List Batch) : Placement :=
  batches.foldl Placement.add ⟨#[], 0, 0, 0⟩

end Batch

end LSystems
