import LSystems.Proofs.Derivation.Write
import Mathlib.Data.List.Nodup

/-!
# Filling a word

The writes of cells in a row fill a blank word of their size slot by slot. No two of
them have one slot, so they may be carried out in any order.
-/

namespace LSystems

inductive Slot
  | symbol (position : Nat)
  | place (position : Nat)
  | parameter (position : Nat)
deriving DecidableEq

def Write.slot : Write → Slot
  | .symbol position _ => .symbol position
  | .place position _ => .place position
  | .parameter position _ => .parameter position

namespace Word

def slotsFrom (symbol parameter symbols parameters : Nat) : List Slot :=
  (List.range' symbol symbols).map .symbol ++ (List.range' symbol symbols).map .place ++
    (List.range' parameter parameters).map .parameter

def slots (word : Word) : List Slot :=
  slotsFrom 0 0 word.size word.block.size

theorem slots_ofCells (cells : List Cell) :
    (ofCells cells).slots = slotsFrom 0 0 cells.length (Cell.width cells) := by
  have symbols := congrArg List.length (toList_symbols_ofCells cells)
  have block := congrArg List.length (toList_block_ofCells cells)
  rw [Array.length_toList, List.length_map] at symbols
  rw [Array.length_toList] at block
  rw [slots, size, symbols, block, Cell.width]

/-! ## Every slot once -/

private theorem slots_parameters (values : List Float) (first : Nat) :
    (values.mapIdx fun index value => Write.parameter (first + index)
      value).map Write.slot =
      (List.range' first values.length).map .parameter := by
  induction values generalizing first with
  | nil => rfl
  | cons value values induction =>
      have further := induction (first + 1)
      simp only [Nat.add_assoc, Nat.add_comm 1] at further
      rw [List.mapIdx_cons, List.map_cons, further]
      rfl

/-- The writes of cells in a row are to all slots from the first ones on, each once. -/
theorem perm_slots_writesFrom (cells : List Cell) (slot first : Nat) :
    ((Cell.writesFrom slot first cells).map Write.slot).Perm
      (slotsFrom slot first cells.length (Cell.width cells)) := by
  induction cells generalizing slot first with
  | nil => simp [Cell.writesFrom, slotsFrom]
  | cons cell cells induction =>
      have head :
          (cell.writes slot ⟨first, cell.parameters.length⟩ first).map Write.slot =
          .symbol slot :: .place slot ::
            (List.range' first cell.parameters.length).map .parameter := by
        rw [Cell.writes, List.map_cons, List.map_cons, slots_parameters]
        rfl
      rw [Cell.writesFrom, List.map_append, head]
      refine (List.Perm.append_left _ (induction _ _)).trans ?_
      apply List.perm_iff_count.mpr
      intro counted
      rw [slotsFrom, slotsFrom, Cell.width_cons, ← List.range'_append_1, List.length_cons,
        List.range'_succ]
      simp only [List.map_append, List.map_cons, List.count_append, List.count_cons,
        List.cons_append]
      omega

theorem nodup_slotsFrom (symbol parameter symbols parameters : Nat) :
    (slotsFrom symbol parameter symbols parameters).Nodup := by
  have symbolSlots : ((List.range' symbol symbols).map Slot.symbol).Nodup :=
    List.Nodup.map (fun _ _ => Slot.symbol.inj) (List.nodup_range' 1)
  have placeSlots : ((List.range' symbol symbols).map Slot.place).Nodup :=
    List.Nodup.map (fun _ _ => Slot.place.inj) (List.nodup_range' 1)
  have parameterSlots : ((List.range' parameter parameters).map Slot.parameter).Nodup :=
    List.Nodup.map (fun _ _ => Slot.parameter.inj) (List.nodup_range' 1)
  refine List.nodup_append.mpr ⟨List.nodup_append.mpr ⟨symbolSlots, placeSlots, ?_⟩,
    parameterSlots, ?_⟩
  · intro slot isSymbol other isPlace
    obtain ⟨_, _, rfl⟩ := List.mem_map.mp isSymbol
    obtain ⟨_, _, rfl⟩ := List.mem_map.mp isPlace
    exact Slot.noConfusion
  · intro slot isOther other isParameter
    obtain ⟨_, _, rfl⟩ := List.mem_map.mp isParameter
    rcases List.mem_append.mp isOther with isSymbol | isPlace
    · obtain ⟨_, _, rfl⟩ := List.mem_map.mp isSymbol
      exact Slot.noConfusion
    · obtain ⟨_, _, rfl⟩ := List.mem_map.mp isPlace
      exact Slot.noConfusion

/-! ## Order of writes -/

theorem assign_comm (word : Word) {first second : Write}
    (different : first.slot ≠ second.slot) :
    (word.assign first).assign second = (word.assign second).assign first := by
  cases first with
  | symbol slot value =>
      cases second with
      | symbol other _ =>
          have apart : slot ≠ other := fun equal => different (congrArg Slot.symbol equal)
          simp [assign, Array.setIfInBounds_comm _ _ apart]
      | place | parameter => rfl
  | place slot value =>
      cases second with
      | place other _ =>
          have apart : slot ≠ other := fun equal => different (congrArg Slot.place equal)
          simp [assign, Array.setIfInBounds_comm _ _ apart]
      | symbol | parameter => rfl
  | parameter slot value =>
      cases second with
      | parameter other _ =>
          have apart : slot ≠ other := fun equal =>
            different (congrArg Slot.parameter equal)
          simp [assign, Array.setIfInBounds_comm _ _ apart]
      | symbol | place => rfl

theorem foldl_assign_perm {writes order : List Write}
    (distinct : (writes.map Write.slot).Nodup) (perm : order.Perm writes) (word : Word) :
    order.foldl assign word = writes.foldl assign word := by
  refine (perm.symm.foldl_eq' ?_ word).symm
  intro first isFirst second isSecond word
  by_cases equal : first = second
  · rw [equal]
  · apply assign_comm
    intro same
    exact equal (List.inj_on_of_nodup_map distinct isFirst isSecond same)

/-! ## Filling -/

/-- A word of which the cells have been written, with so many symbols and parameters to
go. -/
def partly (cells : List Cell) (symbols parameters : Nat) : Word where
  symbols := (cells.map Cell.symbol ++ List.replicate symbols 0).toArray
  places := (placesFrom 0 cells ++ List.replicate symbols Span.zero).toArray
  block := (cells.flatMap Cell.parameters ++ List.replicate parameters 0).toArray

theorem partly_nil (symbols parameters : Nat) :
    partly [] symbols parameters = blank symbols parameters := by
  simp [partly, blank, placesFrom]

theorem partly_all (cells : List Cell) : partly cells 0 0 = ofCells cells := by
  apply eq_of_toList
  · simp [partly, toList_symbols_ofCells]
  · simp [partly, toList_places_ofCells]
  · simp [partly, toList_block_ofCells]

private theorem setIfInBounds_replicate {α : Type} (front : List α) (initial value : α)
    (count : Nat) :
    (front ++ List.replicate (count + 1) initial).toArray.setIfInBounds
      front.length value =
      ((front ++ [value]) ++ List.replicate count initial).toArray := by
  simp [List.replicate_succ]

private theorem foldl_assign_parameters (symbols : Array Symbol) (places : Array Span)
    (front values : List Float) (count : Nat) :
    (values.mapIdx fun index value => Write.parameter (front.length + index) value).foldl
      assign
        ⟨symbols, places, (front ++ List.replicate (values.length + count) 0).toArray⟩ =
      ⟨symbols, places, ((front ++ values) ++ List.replicate count 0).toArray⟩ := by
  induction values generalizing front with
  | nil => simp
  | cons value values induction =>
      have further := induction (front ++ [value])
      rw [List.length_append, List.length_singleton] at further
      have first := setIfInBounds_replicate front 0 value (values.length + count)
      rw [List.mapIdx_cons, List.foldl_cons, List.length_cons, assign, Nat.add_right_comm]
      simp only [Nat.add_zero, first]
      simpa [Nat.add_assoc, Nat.add_comm 1] using further

theorem foldl_assign_partly (front cells : List Cell) (symbols parameters : Nat) :
    (Cell.writesFrom front.length (Cell.width front) cells).foldl assign
        (partly front (cells.length + symbols) (Cell.width cells + parameters)) =
      partly (front ++ cells) symbols parameters := by
  induction cells generalizing front with
  | nil => simp [Cell.writesFrom]
  | cons cell cells induction =>
      have further := induction (front ++ [cell])
      have first : (cell.writes front.length ⟨Cell.width front, cell.parameters.length⟩
          (Cell.width front)).foldl assign
            (partly front (cells.length + 1 + symbols)
              (cell.parameters.length + Cell.width cells + parameters)) =
          partly (front ++ [cell]) (cells.length + symbols)
            (Cell.width cells + parameters) := by
        have length : (front.map Cell.symbol).length = front.length := List.length_map _
        have width : (front.flatMap Cell.parameters).length = Cell.width front := rfl
        have symbolSet := setIfInBounds_replicate (front.map Cell.symbol) 0 cell.symbol
          (cells.length + symbols)
        have placeSet := setIfInBounds_replicate (placesFrom 0 front) Span.zero
          ⟨Cell.width front, cell.parameters.length⟩ (cells.length + symbols)
        rw [length] at symbolSet
        rw [length_placesFrom] at placeSet
        rw [Cell.writes, List.foldl_cons, List.foldl_cons, partly, Nat.add_right_comm,
          assign, assign, symbolSet, placeSet, Nat.add_assoc, ← width,
          foldl_assign_parameters]
        simp [partly, placesFrom_append, placesFrom, Cell.width]
      rw [Cell.writesFrom, List.foldl_append, List.length_cons, Cell.width_cons, first]
      simpa using further

theorem foldl_assign_blank (cells : List Cell) :
    (Cell.writesFrom 0 0 cells).foldl assign (blank cells.length (Cell.width cells)) =
      ofCells cells := by
  have filled := foldl_assign_partly [] cells 0 0
  rwa [Nat.add_zero, Nat.add_zero, partly_nil, List.nil_append, partly_all] at filled

end Word

end LSystems
