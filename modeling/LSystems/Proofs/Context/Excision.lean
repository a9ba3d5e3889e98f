import LSystems.Proofs.Context.Pruning
import LSystems.Proofs.Pairs

/-!
# Words without a branch

Cutting a complete branch out of a word, brackets included, moves what stands behind it
to the front and leaves all other pairs of brackets as they are, whether the rest of the
word is balanced or not. Main statement: `Word.excision_excise`.
-/

namespace LSystems

/-! ## Rows without a part -/

def excised {α : Type} (row : List α) (first last : Nat) : List α :=
  row.take first ++ row.drop (last + 1)

/-- The place of a position when the members from `first` to `last` are cut out. The
positions `first` and `last + 1` fall together. -/
def placeExcised (first last position : Nat) : Nat :=
  if position ≤ first then position else position - (last + 1 - first)

def Apart (first last position : Nat) : Prop :=
  position < first ∨ last < position

section Rows

variable {α β : Type} {row : List α} {first last position other : Nat}

theorem map_excised (change : α → β) (row : List α) (first last : Nat) :
    (excised row first last).map change = excised (row.map change) first last := by
  rw [excised, List.map_append, List.map_take, List.map_drop, excised]

theorem placeExcised_front (le : position ≤ first) :
    placeExcised first last position = position :=
  if_pos le

theorem placeExcised_behind (le : first ≤ last) (distance : Nat) :
    placeExcised first last (last + 1 + distance) = first + distance := by
  rw [placeExcised, if_neg (by omega)]
  omega

theorem placeExcised_around (le : first ≤ last) :
    placeExcised first last (last + 1) = placeExcised first last first :=
  (placeExcised_behind le 0).trans (placeExcised_front (Nat.le_refl first)).symm

theorem getElem?_excised (le : first ≤ last) (inside : last < row.length)
    (apart : Apart first last position) :
    (excised row first last)[placeExcised first last position]? = row[position]? := by
  have length : (row.take first).length = first := List.length_take_of_le (by omega)
  rcases apart with before | behind
  · rw [placeExcised_front (Nat.le_of_lt before), excised,
      List.getElem?_append_left (length.symm ▸ before), List.getElem?_take_of_lt before]
  · rcases Nat.exists_eq_add_of_le (show last + 1 ≤ position from behind) with
      ⟨distance, rfl⟩
    rw [placeExcised_behind le, excised, List.getElem?_append_right (by omega), length,
      Nat.add_sub_cancel_left, List.getElem?_drop]

theorem placeExcised_lt_iff (le : first ≤ last) (apart : Apart first last position)
    (otherApart : Apart first last other) :
    placeExcised first last position < placeExcised first last other ↔
    position < other := by
  unfold Apart at *
  unfold placeExcised
  split <;> split <;> omega

theorem placeExcised_inj (le : first ≤ last) (apart : Apart first last position)
    (otherApart : Apart first last other)
    (same : placeExcised first last position = placeExcised first last other) :
    position = other := by
  apply Nat.le_antisymm
  · exact Nat.le_of_not_lt fun lt =>
      Nat.ne_of_gt ((placeExcised_lt_iff le otherApart apart).mpr lt) same
  · exact Nat.le_of_not_lt fun lt =>
      Nat.ne_of_lt ((placeExcised_lt_iff le apart otherApart).mpr lt) same

theorem placeExcised_succ (apart : Apart first last position) :
    placeExcised first last (position + 1) = placeExcised first last position + 1 := by
  unfold Apart at apart
  unfold placeExcised
  split <;> split <;> omega

theorem exists_placeExcised (le : first ≤ last) (place : Nat) :
    ∃ position, Apart first last position ∧ placeExcised first last position = place := by
  by_cases before : place < first
  · exact ⟨place, .inl before, placeExcised_front (Nat.le_of_lt before)⟩
  · refine ⟨last + 1 + (place - first), .inr (by omega), ?_⟩
    rw [placeExcised_behind le]
    omega

theorem take_behind (le : first ≤ last) (inside : last < row.length) (count : Nat) :
    row.take (last + 1 + count) = row.take first ++
        ((row.take (last + 1)).drop first ++ (row.drop (last + 1)).take count) ∧
      (excised row first last).take (first + count) =
        row.take first ++ (row.drop (last + 1)).take count := by
  have length : (row.take first).length = first := List.length_take_of_le (by omega)
  have front :
      row.take (last + 1) = row.take first ++ (row.take (last + 1)).drop first := by
    conv_lhs => rw [← List.take_append_drop first (row.take (last + 1))]
    rw [List.take_take, Nat.min_eq_left (by omega)]
  constructor
  · rw [List.take_add, ← List.append_assoc, ← front]
  · rw [excised, List.take_append, length, List.take_of_length_le (by omega),
      Nat.add_sub_cancel_left]

theorem depth?_excised [DecidableEq α] {branches : BranchPair α} (le : first ≤ last)
    (inside : last < row.length)
    (balanced : branches.depth? 0 ((row.take (last + 1)).drop first) = some 0)
    (apart : Apart first last position) (otherApart : Apart first last other)
    (lt : position < other) :
    branches.depth? 0
      (((excised row first last).take (placeExcised first last other)).drop
        (placeExcised first last position + 1)) =
      branches.depth? 0 ((row.take other).drop (position + 1)) := by
  have length : (row.take first).length = first := List.length_take_of_le (by omega)
  unfold Apart at apart otherApart
  rcases Nat.lt_or_ge other first with before | notBefore
  · -- Both are in front of the part.
    rw [placeExcised_front (by omega), placeExcised_front (by omega), excised,
      List.take_append_of_le_length (by omega), List.take_take,
      Nat.min_eq_left (by omega)]
  · rcases Nat.exists_eq_add_of_le (show last + 1 ≤ other by omega) with ⟨count, rfl⟩
    rcases take_behind le inside count with ⟨whole, cut⟩
    rw [placeExcised_behind le, cut]
    rcases Nat.lt_or_ge last position with behind | notBehind
    · -- Both are behind it.
      rcases Nat.exists_eq_add_of_le (show last + 1 ≤ position by omega) with
        ⟨distance, rfl⟩
      have back : (row.take (last + 1 + count)).drop (last + 1) =
          (row.drop (last + 1)).take count := by
        rw [List.drop_take, Nat.add_sub_cancel_left]
      calc
        _ = branches.depth? 0 (((row.drop (last + 1)).take count).drop
          (distance + 1)) := by
          rw [placeExcised_behind le, Nat.add_assoc, ← List.drop_drop,
            List.drop_left' length]
        _ = _ := by
          rw [← back, List.drop_drop, Nat.add_assoc (last + 1)]
    · -- The part is between them.
      have counted (depth : Nat) :
          branches.depth? depth ((row.take (last + 1)).drop first ++
            (row.drop (last + 1)).take count) =
          branches.depth? depth ((row.drop (last + 1)).take count) := by
        rw [BranchPair.depth?_append, BranchPair.depth?_of_balanced balanced,
          Option.bind_some]
      rw [placeExcised_front (by omega), whole, List.drop_append_of_le_length (by omega),
        List.drop_append_of_le_length (by omega), BranchPair.depth?_append,
        BranchPair.depth?_append]
      congr 1
      exact funext fun depth => (counted depth).symm

end Rows

/-! ## Brackets -/

namespace BracketTable

variable {branches : BranchPair Symbol} {symbols : Array Symbol}
    {first last position other : Nat}

theorem Joins.balanced (joins : (ofSymbols branches symbols).Joins first last) :
    branches.depth? 0 ((symbols.toList.take (last + 1)).drop first) = some 0 := by
  rcases joins_iff.mp joins with ⟨lt, isOpening, isClosing, different, between⟩
  rw [← Array.getElem?_toList] at isOpening isClosing
  have inside := (List.getElem?_eq_some_iff.mp isClosing).1
  rw [List.take_add_one, isClosing, Option.toList_some, List.drop_append_of_le_length
    (by rw [List.length_take]; omega)]
  have opens : (symbols.toList.take last)[first]? = some branches.opening := by
    rw [List.getElem?_take_of_lt lt, isOpening]
  rcases List.getElem?_eq_some_iff.mp opens with ⟨openInside, opens⟩
  rw [← List.getElem_cons_drop openInside, opens, List.cons_append,
    BranchPair.depth?, if_pos rfl, BranchPair.depth?_append,
    BranchPair.depth?_of_balanced between, Option.bind_some,
    BranchPair.depth?, if_neg different, if_pos rfl]
  rfl

theorem Joins.apart_iff (joins : (ofSymbols branches symbols).Joins first last)
    (further : (ofSymbols branches symbols).Joins position other) :
    Apart first last position ↔ Apart first last other := by
  have lt := joins.lt
  have furtherLt := further.lt
  have sameFirst : position = first → other = last := by
    rintro rfl
    exact Option.some.inj (further.forward.symm.trans joins.forward)
  have sameLast : other = last → position = first := by
    rintro rfl
    exact Option.some.inj (further.backward.symm.trans joins.backward)
  have inside : first < position → position < last → other < last := joins.nested further
  have around : position < first → first < other → last < other := further.nested joins
  have notFirst : other ≠ first := by
    rintro rfl
    have kinds := further.kinds
    exact kinds.2.2 (Option.some.inj (kinds.2.1.symm.trans joins.kinds.1))
  have notLast : position ≠ last := by
    rintro rfl
    have kinds := joins.kinds
    exact kinds.2.2 (Option.some.inj (kinds.2.1.symm.trans further.kinds.1))
  unfold Apart
  omega

theorem joins_excised_iff (joins : (ofSymbols branches symbols).Joins first last)
    (apart : Apart first last position) (otherApart : Apart first last other) :
    (ofSymbols branches (excised symbols.toList first last).toArray).Joins
        (placeExcised first last position) (placeExcised first last other) ↔
      (ofSymbols branches symbols).Joins position other := by
  have le := Nat.le_of_lt joins.lt
  have inside : last < symbols.toList.length := by
    rw [Array.length_toList]
    exact (Array.getElem?_eq_some_iff.mp joins.kinds.2.1).1
  simp only [joins_iff, List.getElem?_toArray, getElem?_excised le inside apart,
    getElem?_excised le inside otherApart, placeExcised_lt_iff le apart otherApart,
    Array.getElem?_toList]
  apply and_congr_right
  intro lt
  rw [depth?_excised le inside joins.balanced apart otherApart lt]

/-- Whatever stands apart from a complete branch keeps its partner when the branch is
cut out. -/
theorem partner?_excised (joins : (ofSymbols branches symbols).Joins first last)
    (apart : Apart first last position) :
    (ofSymbols branches (excised symbols.toList first last).toArray).partner?
        (placeExcised first last position) =
      ((ofSymbols branches symbols).partner? position).map (placeExcised first last) := by
  have le := Nat.le_of_lt joins.lt
  cases found : (ofSymbols branches symbols).partner? position with
  | some partner =>
      rw [Option.map_some]
      rcases joins_of_partner? found with further | further
      · have partnerApart := (joins.apart_iff further).mp apart
        exact ((joins_excised_iff joins apart partnerApart).mpr further).forward
      · have partnerApart := (joins.apart_iff further).mpr apart
        exact ((joins_excised_iff joins partnerApart apart).mpr further).backward
  | none =>
      rw [Option.map_none]
      apply Option.eq_none_iff_forall_ne_some.mpr
      intro place isPartner
      rcases exists_placeExcised le place with ⟨partner, partnerApart, rfl⟩
      rcases joins_of_partner? isPartner with further | further
      · have whole := (joins_excised_iff joins apart partnerApart).mp further
        cases found.symm.trans whole.forward
      · have whole := (joins_excised_iff joins partnerApart apart).mp further
        cases found.symm.trans whole.backward

end BracketTable

/-! ## Words and scenes -/

/-- A scene without the branch between two brackets: what stands apart from it is at its
new place, with its parameters and its partner. -/
structure Scene.Excision (whole cut : Scene) (first last : Nat) : Prop where
  joins : whole.table.Joins first last
  branches_eq : cut.branches = whole.branches
  ignored_eq : cut.ignored = whole.ignored
  symbol_eq : ∀ position, Apart first last position →
    cut.symbol? (placeExcised first last position) = whole.symbol? position
  row_eq : ∀ position, Apart first last position →
    cut.word.parameters? (placeExcised first last position) =
      whole.word.parameters? position
  parameters_eq : ∀ position, Apart first last position →
    cut.word.parameters (placeExcised first last position) =
      whole.word.parameters position
  arity_eq : ∀ position, Apart first last position →
    cut.word.arity (placeExcised first last position) = whole.word.arity position
  partner_eq : ∀ position, Apart first last position →
    cut.table.partner? (placeExcised first last position) =
      (whole.table.partner? position).map (placeExcised first last)

namespace Word

variable {word : Word} {first last position : Nat}

theorem at_cell (compact : word.Compact) (position : Nat) :
    word.symbols[position]? = word.cells[position]?.map Cell.symbol ∧
      word.parameters? position = word.cells[position]?.map Cell.parameters ∧
      word.parameters position = (word.cells[position]?.map Cell.parameters).getD [] ∧
      word.arity position =
        (word.cells[position]?.map fun cell => cell.parameters.length).getD 0 := by
  rw [getElem?_cells compact]
  by_cases inside : position < word.size
  · rcases compact.at_position inside with
      ⟨symbol, place, isSymbol, _, _, isRow, arity, length⟩
    simp [isSymbol, isRow, arity, length]
  · have missing : word.symbols[position]? = none :=
      Array.getElem?_eq_none (Nat.le_of_not_lt inside)
    have noPlace : word.places[position]? = none := by
      rw [Array.getElem?_eq_none_iff] at missing ⊢
      exact compact.1 ▸ missing
    simp [missing, parameters?, parameters, arity, noPlace]

/-- The word without the cells from `first` to `last`. -/
def excise (word : Word) (first last : Nat) : Word :=
  .ofCells (excised word.cells first last)

theorem compact_excise (word : Word) (first last : Nat) :
    (word.excise first last).Compact :=
  compact_ofCells _

theorem symbols_excise (compact : word.Compact) (first last : Nat) :
    (word.excise first last).symbols =
      (excised word.symbols.toList first last).toArray := by
  apply Array.toList_inj.mp
  rw [excise, toList_symbols_ofCells, map_excised, map_symbol_cells compact]

theorem excision_excise {branches : BranchPair Symbol} {ignored : SymbolSet}
    (compact : word.Compact)
    (joins : (BracketTable.ofSymbols branches word.symbols).Joins first last) :
    (Scene.ofWord branches ignored word).Excision
      (.ofWord branches ignored (word.excise first last)) first last := by
  have inside := (Array.getElem?_eq_some_iff.mp joins.kinds.2.1).1
  have sameCell (position : Nat) (apart : Apart first last position) :
      (word.excise first last).cells[placeExcised first last position]? =
        word.cells[position]? := by
    rw [excise, cells_ofCells]
    exact getElem?_excised (Nat.le_of_lt joins.lt) (length_cells compact ▸ inside) apart
  have cut (position : Nat) :=
    at_cell (compact_excise word first last) (placeExcised first last position)
  have whole (position : Nat) := at_cell compact position
  exact
    { joins := joins
      branches_eq := rfl
      ignored_eq := rfl
      symbol_eq := fun position apart => (cut position).1.trans
        (sameCell position apart ▸ (whole position).1.symm)
      row_eq := fun position apart => (cut position).2.1.trans
        (sameCell position apart ▸ (whole position).2.1.symm)
      parameters_eq := fun position apart => (cut position).2.2.1.trans
        (sameCell position apart ▸ (whole position).2.2.1.symm)
      arity_eq := fun position apart => (cut position).2.2.2.trans
        (sameCell position apart ▸ (whole position).2.2.2.symm)
      partner_eq := by
        intro position apart
        have partner := BracketTable.partner?_excised joins apart
        rw [← symbols_excise compact] at partner
        exact partner }

end Word

end LSystems
