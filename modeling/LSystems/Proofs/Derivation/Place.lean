import LSystems.Proofs.Derivation.Decide

/-!
# Placing

When every decision takes up its own position only, placing the batches absorbs none and
counts what they make. The parts of the new word that the batches get lie one behind
another and fill it.
-/

namespace LSystems

variable {table : RuleTable} {word : Word} {globals : List Float}

def Cell.width (cells : List Cell) : Nat :=
  (cells.flatMap Cell.parameters).length

@[simp]
theorem Cell.width_nil : width [] = 0 := rfl

@[simp]
theorem Cell.width_cons (cell : Cell) (cells : List Cell) :
    width (cell :: cells) = cell.parameters.length + width cells := by
  simp [width]

@[simp]
theorem Cell.width_append (front back : List Cell) :
    width (front ++ back) = width front + width back := by
  simp [width]

namespace Batch

theorem Tally.foldl_add {pool : Array Float} {start : Nat} {decisions : List Decision}
    {segments : List (List Cell)}
    (makes : Decision.MakeFrom table word globals pool start decisions segments)
    (before : Array Decision) (symbols parameters : Nat) :
    decisions.foldl Tally.add ⟨0, before, symbols, parameters⟩ =
      ⟨0, before ++ decisions, symbols + segments.flatten.length,
        parameters + Cell.width segments.flatten⟩ := by
  induction makes generalizing before symbols parameters with
  | nil => simp
  | @cons _ decision _ made _ makes _ induction =>
      have counted : Cell.width made = decision.parameters := makes.parameters.symm
      rw [List.foldl_cons, add, makes.consumed, makes.symbols, ← counted,
        Nat.sub_self, induction]
      simp [Nat.add_assoc]

/-- Batches that have been placed from `base` parameters on, and the cells that each
makes. -/
inductive Placed (table : RuleTable) (word : Word) (globals : List Float) :
    (base : Nat) → List Batch → List (List Cell) → Prop
  | nil {base} : Placed table word globals base [] []
  | cons {base batch batches segments parts} :
      batch.Makes table word globals segments →
      batch.symbolCount = segments.flatten.length →
      batch.parameterCount = Cell.width segments.flatten →
      batch.parameterBase = base →
      Placed table word globals (base + batch.parameterCount) batches parts →
      Placed table word globals base (batch :: batches) (segments.flatten :: parts)

private theorem Placement.foldl_add {batches : List Batch}
    {parts : List (List (List Cell))}
    (makes : List.Forall₂ (Batch.Makes table word globals) batches parts)
    (before : Array Batch) (symbols parameters : Nat) :
    ∃ placed : List Batch, batches.foldl Placement.add ⟨before, 0, symbols, parameters⟩ =
        ⟨before ++ placed, 0, symbols + parts.flatten.flatten.length,
          parameters + Cell.width parts.flatten.flatten⟩ ∧
      Placed table word globals parameters placed (parts.map List.flatten) := by
  induction makes generalizing before symbols parameters with
  | nil => exact ⟨[], by simp, .nil⟩
  | @cons batch segments batches parts makes _ induction =>
      have tally := Tally.foldl_add makes #[] 0 0
      simp only [Nat.zero_add] at tally
      let placedBatch : Batch :=
        { batch with
          symbolCount := segments.flatten.length
          parameterCount := Cell.width segments.flatten
          parameterBase := parameters }
      obtain ⟨placed, folded, isPlaced⟩ := induction (before.push placedBatch)
        (symbols + segments.flatten.length) (parameters + Cell.width segments.flatten)
      refine ⟨placedBatch :: placed, ?_, .cons makes rfl rfl rfl isPlaced⟩
      rw [List.foldl_cons, add, tally]
      simpa [placedBatch, Nat.add_assoc] using folded

/-- Placing batches whose decisions take up their own positions only. -/
theorem place_eq {batches : List Batch} {parts : List (List (List Cell))}
    (makes : List.Forall₂ (Batch.Makes table word globals) batches parts) :
    ∃ placed : List Batch,
      place batches = ⟨placed.toArray, 0, parts.flatten.flatten.length,
        Cell.width parts.flatten.flatten⟩ ∧
      Placed table word globals 0 placed (parts.map List.flatten) := by
  obtain ⟨placed, folded, isPlaced⟩ := Placement.foldl_add makes #[] 0 0
  refine ⟨placed, ?_, isPlaced⟩
  rw [place, folded]
  simp

end Batch

end LSystems
