import LSystems.Proofs.Derivation.Step

/-!
# The layout of words

However a word comes about, the parameters of its symbols lie one behind another and
fill its block. So its cells say everything about it: what it was made of can be read
off it, and two words have equal rows exactly if their cells are equal. Main statement:
`Word.Made.laid_and_same_iff`.
-/

namespace LSystems

namespace Word

/-! ## Places without gaps -/

section Places

variable {start stop : Nat} {places : List Span}

theorem Contiguous.stop_eq (contiguous : Contiguous start stop places) :
    stop = start + (places.map Span.length).sum := by
  induction places generalizing start with
  | nil => exact (contiguous : start = stop).symm
  | cons head rest induction =>
      rcases contiguous with ⟨rfl, further⟩
      rw [induction further, Span.stop, List.map_cons, List.sum_cons, Nat.add_assoc]

theorem Contiguous.offset_eq (contiguous : Contiguous start stop places) {position : Nat}
    {place : Span} (found : places[position]? = some place) :
    place.offset = start + ((places.take position).map Span.length).sum := by
  induction places generalizing start position with
  | nil => contradiction
  | cons head rest induction =>
      rcases contiguous with ⟨rfl, further⟩
      cases position with
      | zero =>
          cases found
          rfl
      | succ position =>
          rw [induction further found, Span.stop, List.take_succ_cons, List.map_cons,
            List.sum_cons, Nat.add_assoc]

theorem Contiguous.existsUnique_covers (contiguous : Contiguous start stop places)
    {slot : Nat} (behind : start ≤ slot) (before : slot < stop) :
    ∃! position : Nat, ∃ place : Span, places[position]? = some place ∧
      place.Covers slot := by
  induction places generalizing start with
  | nil =>
      cases (contiguous : start = stop)
      exact absurd before (Nat.not_lt_of_le behind)
  | cons head rest induction =>
      rcases contiguous with ⟨rfl, further⟩
      by_cases inside : slot < head.stop
      · refine ⟨0, ⟨head, rfl, behind, inside⟩, ?_⟩
        rintro (_ | position) ⟨place, found, covers⟩
        · rfl
        · have later : head.stop ≤ place.offset := by
            rw [further.offset_eq found]
            exact Nat.le_add_right ..
          exact absurd inside (Nat.not_lt_of_le (Nat.le_trans later covers.1))
      · rcases induction further (Nat.le_of_not_lt inside) with
          ⟨position, covered, unique⟩
        refine ⟨position + 1, covered, ?_⟩
        rintro (_ | other) ⟨place, found, covers⟩
        · cases found
          exact absurd covers.2 inside
        · exact congrArg (· + 1) (unique other ⟨place, found, covers⟩)

end Places

/-! ## Laid words -/

/-- Every symbol has a place in the block: behind the places of the symbols before it,
and with its parameters in it. The places share no slot and leave none out. -/
structure Laid (word : Word) : Prop where
  size_places : word.places.size = word.symbols.size
  offset_eq : ∀ position place, word.places[position]? = some place →
    place.offset = ((word.places.toList.take position).map Span.length).sum
  size_block : word.block.size = (word.places.toList.map Span.length).sum
  cell_at : ∀ position symbol, word.symbols[position]? = some symbol →
    ∃ place row, word.places[position]? = some place ∧
      word.parameters? position = some row ∧
      row.length = place.length ∧ word.cells[position]? = some ⟨symbol, row⟩
  existsUnique_covers : ∀ slot < word.block.size,
    ∃! position : Nat, ∃ place : Span, word.places[position]? = some place ∧
      place.Covers slot

variable {word : Word}

theorem Compact.laid (compact : word.Compact) : word.Laid where
  size_places := compact.1
  offset_eq := by
    intro position place found
    rw [← Array.getElem?_toList] at found
    rw [compact.2.offset_eq found, Nat.zero_add]
  size_block := by rw [compact.2.stop_eq, Nat.zero_add]
  cell_at := by
    intro position symbol isSymbol
    have inside : position < word.size := (Array.getElem?_eq_some_iff.mp isSymbol).1
    rcases compact.at_position inside with ⟨_, place, _, isPlace, _, isRow, _, count⟩
    refine ⟨place, word.parameters position, isPlace, isRow, count, ?_⟩
    rw [getElem?_cells compact, isSymbol, Option.map_some]
  existsUnique_covers := by
    intro slot inside
    have covered := compact.2.existsUnique_covers (Nat.zero_le slot) inside
    simpa only [Array.getElem?_toList] using covered

/-! ## Equal words -/

/-- Doubles that are equal as numbers, one after another. -/
def SameValues : List Float → List Float → Prop :=
  List.Forall₂ fun first second => (first == second) = true

theorem beq_iff_sameValues (left right : List Float) :
    (left == right) = true ↔ SameValues left right := by
  induction left generalizing right with
  | nil => cases right <;> simp [SameValues]
  | cons value rest induction =>
      cases right with
      | nil => simp [SameValues]
      | cons other further =>
          rw [List.cons_beq_cons, Bool.and_eq_true, induction, SameValues,
            List.forall₂_cons]

theorem SameValues.append_iff {left right front back : List Float}
    (length : left.length = front.length) :
    SameValues (left ++ right) (front ++ back) ↔
    SameValues left front ∧ SameValues right back := by
  constructor
  · intro same
    have first := List.forall₂_take_append _ _ _ same
    have second := List.forall₂_drop_append _ _ _ same
    rw [← length, List.take_left] at first
    rw [← length, List.drop_left] at second
    exact ⟨first, second⟩
  · rintro ⟨first, second⟩
    exact List.rel_append first second

def SameCell (left right : Cell) : Prop :=
  left.symbol = right.symbol ∧ SameValues left.parameters right.parameters

theorem same_rows_iff (start : Nat) (left right : List Cell) :
    (left.map Cell.symbol = right.map Cell.symbol ∧
      placesFrom start left = placesFrom start right ∧
      SameValues (left.flatMap Cell.parameters) (right.flatMap Cell.parameters)) ↔
      List.Forall₂ SameCell left right := by
  induction left generalizing start right with
  | nil =>
      cases right with
      | nil => simp [SameValues]
      | cons => simp
  | cons cell rest induction =>
      cases right with
      | nil => simp
      | cons other further =>
          rw [List.forall₂_cons, ← induction (start + cell.parameters.length)]
          constructor
          · rintro ⟨symbols, places, block⟩
            rcases List.cons.inj symbols with ⟨symbol, symbols⟩
            rcases List.cons.inj places with ⟨place, places⟩
            have length : cell.parameters.length = other.parameters.length :=
              congrArg Span.length place
            rcases (SameValues.append_iff length).mp block with ⟨values, block⟩
            rw [← length] at places
            exact ⟨⟨symbol, values⟩, symbols, places, block⟩
          · rintro ⟨⟨symbol, values⟩, symbols, places, block⟩
            have length : cell.parameters.length = other.parameters.length :=
              values.length_eq
            refine ⟨congrArg₂ List.cons symbol symbols, ?_, List.rel_append values block⟩
            rw [placesFrom, placesFrom, places, length]

theorem same_ofCells_iff (left right : List Cell) :
    (ofCells left).same (ofCells right) = true ↔ List.Forall₂ SameCell left right := by
  rw [← same_rows_iff 0, ← beq_iff_sameValues]
  simp only [same, Bool.and_eq_true, beq_iff_eq, ← Array.toList_inj,
    toList_symbols_ofCells, toList_places_ofCells, and_assoc]
  rw [← Array.beq_toList, toList_block_ofCells, toList_block_ofCells]

theorem same_iff {left right : Word} (leftCompact : left.Compact)
    (rightCompact : right.Compact) :
    left.same right = true ↔ left.size = right.size ∧ ∀ position < left.size,
      left.symbols[position]? = right.symbols[position]? ∧
        SameValues (left.parameters position) (right.parameters position) := by
  have cellwise := same_ofCells_iff left.cells right.cells
  rw [ofCells_cells leftCompact, ofCells_cells rightCompact,
    List.forall₂_iff_get] at cellwise
  have leftLength := length_cells leftCompact
  have rightLength := length_cells rightCompact
  apply cellwise.trans
  constructor
  · rintro ⟨length, same⟩
    rw [leftLength, rightLength] at length
    refine ⟨length, fun position inside => ?_⟩
    have alsoInside : position < right.size := length ▸ inside
    have cells := same position (leftLength.symm ▸ inside) (rightLength.symm ▸ alsoInside)
    rw [List.get_eq_getElem, List.get_eq_getElem, getElem_cells leftCompact _ inside,
      getElem_cells rightCompact _ alsoInside] at cells
    refine ⟨?_, cells.2⟩
    rw [Array.getElem?_eq_getElem inside, Array.getElem?_eq_getElem alsoInside]
    exact congrArg some cells.1
  · rintro ⟨length, same⟩
    refine ⟨leftLength.trans (length.trans rightLength.symm),
      fun position inLeft inRight => ?_⟩
    have inside : position < left.size := leftLength ▸ inLeft
    have alsoInside : position < right.size := rightLength ▸ inRight
    rcases same position inside with ⟨symbols, values⟩
    rw [Array.getElem?_eq_getElem inside, Array.getElem?_eq_getElem alsoInside] at symbols
    rw [List.get_eq_getElem, List.get_eq_getElem, getElem_cells leftCompact _ inside,
      getElem_cells rightCompact _ alsoInside]
    exact ⟨Option.some.inj symbols, values⟩

theorem ofRows_eq (symbols : List Symbol) (rows : List (List Float)) :
    (symbols.length = rows.length → ∃ word, ofRows symbols rows = .ok word ∧
      word.cells.map (fun cell => (cell.symbol, cell.parameters)) = symbols.zip rows) ∧
    (symbols.length ≠ rows.length →
      ofRows symbols rows =
      .error (.malformedWord (.lengths symbols.length rows.length))) := by
  constructor
  · intro length
    refine ⟨_, by rw [ofRows, if_pos length], ?_⟩
    rw [cells_ofCells, List.map_zipWith]
    rfl
  · intro length
    rw [ofRows, if_neg length]

/-- Words that are made are laid out without gaps, whichever way they are made. What
they are put together from can be read off them, and they have equal rows exactly if
they have equal symbols and parameters at every position. -/
theorem Made.laid_and_same_iff {left right : Word} (leftMade : left.Made)
    (rightMade : right.Made) :
    left.Laid ∧
    (∀ cells, (Word.ofCells cells).cells = cells) ∧
    (∀ symbols rows,
      (symbols.length = rows.length → ∃ word, Word.ofRows symbols rows = .ok word ∧
        word.cells.map (fun cell => (cell.symbol, cell.parameters)) = symbols.zip rows) ∧
      (symbols.length ≠ rows.length →
        Word.ofRows symbols rows =
        .error (.malformedWord (.lengths symbols.length rows.length)))) ∧
    (left.same right = true ↔ left.size = right.size ∧ ∀ position < left.size,
      left.symbols[position]? = right.symbols[position]? ∧
        SameValues (left.parameters position) (right.parameters position)) :=
  ⟨leftMade.compact.laid, cells_ofCells, ofRows_eq,
    same_iff leftMade.compact rightMade.compact⟩

/-- The zeros of both signs are equal, whether the word is made of rows or of cells. -/
theorem laid_and_same_iff_zeros :
    ∃ left : Word, Word.ofRows [2, 3] [[0, 1], []] = .ok left ∧ left.Made ∧
      (ofCells [⟨2, [-0, 1]⟩, ⟨3, []⟩]).Made ∧ left.Laid ∧
      left.same (ofCells [⟨2, [-0, 1]⟩, ⟨3, []⟩]) = true := by
  have made : Word.Made (ofCells [⟨2, [0, 1]⟩, ⟨3, []⟩]) := .ofCells _
  have other : Word.Made (ofCells [⟨2, [-0, 1]⟩, ⟨3, []⟩]) := .ofCells _
  rcases made.laid_and_same_iff other with ⟨laid, _, _, same⟩
  refine ⟨_, rfl, made, other, laid, same.mpr ⟨rfl, ?_⟩⟩
  rintro (_ | _ | position) inside
  · exact ⟨rfl, .cons (by decide +kernel) (.cons (by decide +kernel) .nil)⟩
  · exact ⟨rfl, .nil⟩
  · exact absurd inside (Nat.not_lt_of_le (Nat.le_add_left 2 position))

end Word

end LSystems
