import LSystems.Word
import LSystems.Production.Emission

/-!
# Words and their cells

The three rows of a word made of cells, one after another, and what compact words have:
the parameters of every position lie in the block.
-/

namespace LSystems.Word

variable {word : Word} {position start stop : Nat}

/-! ## Rows of a word -/

def placesFrom (start : Nat) : List Cell → List Span
  | [] => []
  | cell :: cells =>
    ⟨start, cell.parameters.length⟩ :: placesFrom (start + cell.parameters.length) cells

theorem placesFrom_append (start : Nat) (front back : List Cell) :
    placesFrom start (front ++ back) =
      placesFrom start front ++
        placesFrom (start + (front.flatMap Cell.parameters).length) back := by
  induction front generalizing start with
  | nil => rfl
  | cons cell cells induction => simp [placesFrom, induction, Nat.add_assoc]

@[simp]
theorem length_placesFrom (start : Nat) (cells : List Cell) :
    (placesFrom start cells).length = cells.length := by
  induction cells generalizing start with
  | nil => rfl
  | cons cell cells induction => simp [placesFrom, induction]

theorem eq_of_toList {left right : Word}
    (symbols : left.symbols.toList = right.symbols.toList)
    (places : left.places.toList = right.places.toList)
    (block : left.block.toList = right.block.toList) : left = right := by
  cases left
  cases right
  simp_all [Array.toList_inj]

theorem size_appendList {α : Type} (values : Array α) (more : List α) :
    (values ++ more).size = values.size + more.length := by
  rw [← Array.length_toList, Array.toList_appendList, List.length_append,
    Array.length_toList]

theorem appendList_appendList {α : Type} (values : Array α) (front back : List α) :
    values ++ front ++ back = values ++ (front ++ back) := by
  apply Array.toList_inj.mp
  simp [List.append_assoc]

private theorem toList_foldl_push (cells : List Cell) (word : Word) :
    (cells.foldl push word).symbols.toList =
      word.symbols.toList ++ cells.map Cell.symbol ∧
      (cells.foldl push word).places.toList =
        word.places.toList ++ placesFrom word.block.size cells ∧
      (cells.foldl push word).block.toList =
        word.block.toList ++ cells.flatMap Cell.parameters := by
  induction cells generalizing word with
  | nil => simp [placesFrom]
  | cons cell cells induction =>
      obtain ⟨symbols, places, block⟩ := induction (word.push cell)
      rw [List.foldl_cons, symbols, places, block]
      simp [push, placesFrom, size_appendList]

@[simp]
theorem toList_symbols_ofCells (cells : List Cell) :
    (ofCells cells).symbols.toList = cells.map Cell.symbol := by
  simpa [ofCells, empty] using (toList_foldl_push cells empty).1

@[simp]
theorem toList_places_ofCells (cells : List Cell) :
    (ofCells cells).places.toList = placesFrom 0 cells := by
  simpa [ofCells, empty] using (toList_foldl_push cells empty).2.1

@[simp]
theorem toList_block_ofCells (cells : List Cell) :
    (ofCells cells).block.toList = cells.flatMap Cell.parameters := by
  simpa [ofCells, empty] using (toList_foldl_push cells empty).2.2

theorem parametersIn_eq (word : Word) (place : Span) :
    word.parametersIn place =
      (word.block.toList.drop place.offset).take place.length := by
  simp [parametersIn, Span.stop, List.extract_eq_take_drop]

private theorem zipWith_placesFrom (before : List Float) {cells : List Cell}
    (block : word.block.toList = before ++ cells.flatMap Cell.parameters) :
    List.zipWith (fun symbol place => (⟨symbol, word.parametersIn place⟩ : Cell))
      (cells.map Cell.symbol) (placesFrom before.length cells) = cells := by
  induction cells generalizing before with
  | nil => rfl
  | cons cell cells induction =>
      have own :
          word.parametersIn ⟨before.length, cell.parameters.length⟩ =
            cell.parameters := by
        simp [parametersIn_eq, block]
      have further := induction (before ++ cell.parameters) (by simp [block])
      rw [List.length_append] at further
      rw [List.map_cons, placesFrom, List.zipWith_cons_cons, own, further]

@[simp]
theorem cells_ofCells (cells : List Cell) : (ofCells cells).cells = cells := by
  rw [Word.cells, toList_symbols_ofCells, toList_places_ofCells]
  exact zipWith_placesFrom [] (toList_block_ofCells cells)

/-! ## Compact words -/

theorem contiguous_placesFrom (start : Nat) (cells : List Cell) :
    Contiguous start (start + (cells.flatMap Cell.parameters).length)
      (placesFrom start cells) := by
  induction cells generalizing start with
  | nil => simp [placesFrom, Contiguous]
  | cons cell cells induction =>
      refine ⟨rfl, ?_⟩
      have further := induction (start + cell.parameters.length)
      simpa [Span.stop, Nat.add_assoc] using further

theorem compact_ofCells (cells : List Cell) : (ofCells cells).Compact := by
  have symbols := congrArg List.length (toList_symbols_ofCells cells)
  have places := congrArg List.length (toList_places_ofCells cells)
  have block := congrArg List.length (toList_block_ofCells cells)
  simp only [Array.length_toList, List.length_map,
    length_placesFrom] at symbols places block
  refine ⟨places.trans symbols.symm, ?_⟩
  rw [toList_places_ofCells, block]
  simpa using contiguous_placesFrom 0 cells

theorem compact_ofSymbols (symbols : List Symbol) : (ofSymbols symbols).Compact := by
  have empty : ∀ count : Nat, Contiguous 0 0 (List.replicate count Span.zero) := by
    intro count
    induction count with
    | zero => rfl
    | succ count induction => exact ⟨rfl, induction⟩
  refine ⟨by simp [ofSymbols], ?_⟩
  simpa [ofSymbols, List.map_const'] using empty symbols.length

theorem Contiguous.stop_le {places : List Span}
    (contiguous : Contiguous start stop places) {place : Span} (member : place ∈ places) :
    place.stop ≤ stop := by
  have ordered : ∀ {start stop places}, Contiguous start stop places → start ≤ stop := by
    intro start stop places contiguous
    induction places generalizing start with
    | nil => exact Nat.le_of_eq contiguous
    | cons head rest induction =>
        obtain ⟨rfl, further⟩ := contiguous
        exact Nat.le_trans (Nat.le_add_right ..) (induction further)
  induction places generalizing start with
  | nil => contradiction
  | cons head rest induction =>
      obtain ⟨_, further⟩ := contiguous
      rcases List.mem_cons.mp member with rfl | member
      · exact ordered further
      · exact induction further member

theorem length_part {α : Type} {span : Span} {values : Array α}
    (inside : span.stop ≤ values.size) :
    (values.extract span.offset span.stop).toList.length = span.length := by
  simp only [Array.length_toList, Array.size_extract, Span.stop] at *
  omega

theorem Compact.at_position (compact : word.Compact) (inside : position < word.size) :
    ∃ symbol place, word.symbols[position]? = some symbol ∧
      word.places[position]? = some place ∧ place.stop ≤ word.block.size ∧
      word.parameters? position = some (word.parameters position) ∧
      word.arity position = place.length ∧
      (word.parameters position).length = place.length := by
  have alsoInside : position < word.places.size := compact.1 ▸ inside
  have isPlace := Array.getElem?_eq_getElem alsoInside
  have fits : word.places[position].stop ≤ word.block.size :=
    compact.2.stop_le (Array.getElem_mem_toList alsoInside)
  refine ⟨_, _, Array.getElem?_eq_getElem inside, isPlace, fits, ?_, ?_, ?_⟩
  · simp [parameters?, parameters, isPlace, parametersIn, Span.part?, fits]
  · simp [arity, isPlace]
  · simpa [parameters, isPlace, parametersIn] using length_part fits

/-! ## Cells of compact words -/

private theorem rows_of_contiguous {symbols : List Symbol} {places : List Span}
    (contiguous : Contiguous start stop places) (length : symbols.length = places.length)
    (fits : stop ≤ word.block.size) :
    let cells := List.zipWith (fun symbol place => ⟨symbol, word.parametersIn place⟩)
      symbols places
    start ≤ stop ∧ cells.map Cell.symbol = symbols ∧ placesFrom start cells = places ∧
      cells.flatMap Cell.parameters =
        (word.block.toList.drop start).take (stop - start) := by
  induction places generalizing start symbols with
  | nil =>
      cases (contiguous : start = stop)
      cases List.length_eq_zero_iff.mp length
      simp [placesFrom]
  | cons place places induction =>
      cases symbols with
      | nil => contradiction
      | cons symbol symbols =>
          rcases contiguous with ⟨rfl, further⟩
          rcases induction further (Nat.succ.inj length) with
            ⟨ordered, areSymbols, arePlaces, rest⟩
          have inside : place.stop ≤ word.block.size := Nat.le_trans ordered fits
          have count : (word.parametersIn place).length = place.length :=
            length_part inside
          have before : place.offset ≤ place.stop := Nat.le_add_right ..
          have split : stop - place.offset = place.length + (stop - place.stop) := by
            simp only [Span.stop] at ordered ⊢
            omega
          refine ⟨Nat.le_trans before ordered, ?_, ?_, ?_⟩
          · rw [List.zipWith_cons_cons, List.map_cons, areSymbols]
          · rw [List.zipWith_cons_cons, placesFrom, count]
            exact congrArg (place :: ·) arePlaces
          · rw [List.zipWith_cons_cons, List.flatMap_cons, rest, parametersIn_eq, split,
              List.take_add, List.drop_drop, Span.stop]

/-- A compact word is made of its cells. -/
theorem ofCells_cells (compact : word.Compact) : ofCells word.cells = word := by
  have length : word.symbols.toList.length = word.places.toList.length := by
    simpa using compact.1.symm
  rcases rows_of_contiguous compact.2 length (Nat.le_refl _) with
    ⟨_, symbols, places, block⟩
  apply eq_of_toList
  · rw [toList_symbols_ofCells]
    exact symbols
  · rw [toList_places_ofCells]
    exact places
  · rw [toList_block_ofCells]
    exact block.trans (List.take_of_length_le (Nat.le_of_eq (Array.length_toList ..)))

theorem getElem?_cells (compact : word.Compact) (position : Nat) :
    word.cells[position]? =
      word.symbols[position]?.map fun symbol => ⟨symbol, word.parameters position⟩ := by
  rw [cells, List.getElem?_zipWith, Array.getElem?_toList, Array.getElem?_toList]
  by_cases inside : position < word.size
  · rcases compact.at_position inside with ⟨symbol, place, isSymbol, isPlace, _⟩
    simp [isSymbol, isPlace, parameters]
  · have outside : word.symbols[position]? = none :=
      Array.getElem?_eq_none (Nat.le_of_not_lt inside)
    simp [outside]

theorem length_cells (compact : word.Compact) : word.cells.length = word.size := by
  rw [cells, List.length_zipWith, Array.length_toList, Array.length_toList,
    compact.1, Nat.min_self]
  rfl

theorem getElem_cells (compact : word.Compact) (inside : position < word.cells.length)
    (alsoInside : position < word.symbols.size) :
    word.cells[position] = ⟨word.symbols[position], word.parameters position⟩ := by
  have found := getElem?_cells compact position
  rw [List.getElem?_eq_getElem inside, Array.getElem?_eq_getElem alsoInside] at found
  exact Option.some.inj found

end LSystems.Word
