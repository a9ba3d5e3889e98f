import LSystems.Proofs.Context.Around
import LSystems.Proofs.Context.Rearranged

/-!
# Branches next to each other

Two complete branches that stand directly next to each other can be exchanged. Without
the one of them, the word is the same before and after, and so it is without the other
one; since no passage leads from the inside of a branch to the inside of its neighbour,
the same passages remain. Main statement: `Word.rearranged_exchange`.
-/

namespace LSystems

/-! ## Rows with two parts exchanged -/

/-- A row with the members from `first` to `middle` behind those from `middle + 1` to
`last`. -/
def exchanged {α : Type} (row : List α) (first middle last : Nat) : List α :=
  row.take first ++ ((row.take (last + 1)).drop (middle + 1) ++
    ((row.take (middle + 1)).drop first ++ row.drop (last + 1)))

example : exchanged ['A', '[', 'B', ']', '[', ']', 'C'] 1 3 5 =
    ['A', '[', ']', '[', 'B', ']', 'C'] := rfl

def middleExchanged (first middle last : Nat) : Nat :=
  first + (last - (middle + 1))

/-- The place of a position after the exchange. -/
def placeExchanged (first middle last position : Nat) : Nat :=
  if position < first then position
  else if position ≤ middle then position + (last - middle)
  else if position ≤ last then position - (middle + 1 - first)
  else position

section Rows

variable {α β : Type} {first middle last position : Nat}

theorem map_exchanged (change : α → β) (row : List α) (first middle last : Nat) :
    (exchanged row first middle last).map change =
      exchanged (row.map change) first middle last := by
  simp only [exchanged, List.map_append, List.map_take, List.map_drop]

theorem exists_parts {row : List α} (le : first ≤ middle) (lt : middle < last)
    (inside : last < row.length) :
    ∃ front left right back : List α, row = front ++ (left ++ (right ++ back)) ∧
      exchanged row first middle last = front ++ (right ++ (left ++ back)) ∧
      front.length = first ∧ front.length + left.length = middle + 1 ∧
      front.length + left.length + right.length = last + 1 := by
  have split : ∀ {start stop}, start ≤ stop →
      row.drop start = (row.take stop).drop start ++ row.drop stop := by
    intro start stop ordered
    have further : row.drop stop = (row.drop start).drop (stop - start) := by
      rw [List.drop_drop, Nat.add_sub_cancel' ordered]
    rw [List.drop_take, further, List.take_append_drop]
  refine ⟨_, _, _, _, ?_, rfl, ?_, ?_, ?_⟩
  · rw [← split (by omega), ← split (by omega), List.take_append_drop]
  · rw [List.length_take]
    omega
  · rw [List.length_take, List.length_drop, List.length_take]
    omega
  · rw [List.length_take, List.length_drop, List.length_take, List.length_drop,
      List.length_take]
    omega

theorem excised_append (front part back : List α)
    (stop : front.length + part.length = last + 1) :
    excised (front ++ (part ++ back)) front.length last = front ++ back := by
  rw [excised, List.take_left', ← stop, List.drop_length_add_append, List.drop_left']
  · rfl
  · rfl

theorem excised_exchanged {row : List α} (le : first ≤ middle) (lt : middle < last)
    (inside : last < row.length) :
    excised (exchanged row first middle last)
        (middleExchanged first middle last + 1) last =
        excised row first middle ∧
      excised (exchanged row first middle last) first
          (middleExchanged first middle last) =
        excised row (middle + 1) last := by
  rcases exists_parts le lt inside with
    ⟨front, left, right, back, isRow, same, rfl, isLeft, isRight⟩
  have isMiddle :
      (front ++ right).length = middleExchanged front.length middle last + 1 := by
    rw [middleExchanged, List.length_append]
    omega
  have leftStop : (front ++ right).length + left.length = last + 1 := by
    rw [List.length_append]
    omega
  have rightStop : (front ++ left).length + right.length = last + 1 := by
    rw [List.length_append, isRight]
  rw [same, isRow]
  constructor
  · rw [excised_append _ _ _ isLeft, ← List.append_assoc, ← isMiddle,
      excised_append _ _ _ leftStop, List.append_assoc]
  · rw [← List.append_assoc front left, ← isLeft, ← List.length_append,
      excised_append _ _ _ rightStop, List.append_assoc]
    exact excised_append _ _ _ (List.length_append.symm.trans isMiddle)

/-! ### Places -/

theorem placeExchanged_back (le : first ≤ middle) (lt : middle < last) (position : Nat) :
    placeExchanged first (middleExchanged first middle last) last
      (placeExchanged first middle last position) = position := by
  unfold placeExchanged middleExchanged
  split_ifs <;> omega

theorem placeExchanged_left (after : first ≤ position) (before : position ≤ middle) :
    placeExchanged first middle last position = position + (last - middle) := by
  rw [placeExchanged, if_neg (Nat.not_lt_of_le after), if_pos before]

theorem placeExchanged_right (le : first ≤ middle) (after : middle < position)
    (before : position ≤ last) :
    placeExchanged first middle last position = position - (middle + 1 - first) := by
  rw [placeExchanged, if_neg (by omega), if_neg (by omega), if_pos before]

def exchangePlaces (le : first ≤ middle) (lt : middle < last) : Equiv.Perm Nat where
  toFun := placeExchanged first middle last
  invFun := placeExchanged first (middleExchanged first middle last) last
  left_inv := placeExchanged_back le lt
  right_inv := by
    intro position
    have back := @placeExchanged_back first (middleExchanged first middle last) last
      (Nat.le_add_right ..) (by unfold middleExchanged; omega) position
    have twice :
        middleExchanged first (middleExchanged first middle last) last = middle := by
      unfold middleExchanged
      omega
    rwa [twice] at back

theorem placeExcised_exchanged_left (le : first ≤ middle) (lt : middle < last)
    (apart : Apart first middle position) :
    Apart (middleExchanged first middle last + 1) last
        (placeExchanged first middle last position) ∧
      placeExcised (middleExchanged first middle last + 1) last
          (placeExchanged first middle last position) =
            placeExcised first middle position := by
  unfold Apart at *
  unfold placeExcised placeExchanged middleExchanged
  split_ifs <;> omega

theorem placeExcised_exchanged_right (le : first ≤ middle) (lt : middle < last)
    (apart : Apart (middle + 1) last position) :
    Apart first (middleExchanged first middle last)
        (placeExchanged first middle last position) ∧
      placeExcised first (middleExchanged first middle last)
          (placeExchanged first middle last position) =
            placeExcised (middle + 1) last position := by
  unfold Apart at *
  unfold placeExcised placeExchanged middleExchanged
  split_ifs <;> omega

end Rows

/-! ## Brackets -/

theorem BracketTable.joins_exchanged {branches : BranchPair Symbol}
    {symbols : Array Symbol} {first middle last : Nat}
    (left : (ofSymbols branches symbols).Joins first middle)
    (right : (ofSymbols branches symbols).Joins (middle + 1) last) :
    let row := (exchanged symbols.toList first middle last).toArray
    (ofSymbols branches row).Joins first (middleExchanged first middle last) ∧
      (ofSymbols branches row).Joins (middleExchanged first middle last + 1) last := by
  intro row
  have lt := left.lt
  have further := right.lt
  have inside : last < symbols.toList.length := by
    rw [Array.length_toList]
    exact (Array.getElem?_eq_some_iff.mp right.kinds.2.1).1
  rcases exists_parts (Nat.le_of_lt lt) (by omega) inside with
    ⟨front, own, next, back, split, same, rfl, isOwn, isNext⟩
  have isSymbols : symbols = (front ++ (own ++ (next ++ back))).toArray := by
    rw [← split, Array.toArray_toList]
  rcases Nat.exists_eq_add_of_le (Nat.le_of_lt lt) with ⟨ownLast, rfl⟩
  rcases Nat.exists_eq_add_of_le (Nat.le_of_lt further) with ⟨nextLast, rfl⟩
  have isMiddle : middleExchanged front.length (front.length + ownLast)
      (front.length + ownLast + 1 + nextLast) = front.length + nextLast := by
    unfold middleExchanged
    omega
  rw [isSymbols] at left right
  have ownAlone : (ofSymbols branches own.toArray).Joins 0 ownLast :=
    (joins_append_iff front (next ++ back) (by omega)).mp left
  have nextAlone : (ofSymbols branches next.toArray).Joins 0 nextLast := by
    apply (joins_append_iff (front ++ own) back (by omega)).mp
    rwa [List.append_assoc, List.length_append, isOwn]
  have isRow : row = (front ++ (next ++ (own ++ back))).toArray := congrArg _ same
  rw [isRow, isMiddle]
  constructor
  · exact (joins_append_iff front (own ++ back) (by omega)).mpr nextAlone
  · have joined := (joins_append_iff (front ++ next) back (by omega)).mpr ownAlone
    rw [List.append_assoc, List.length_append] at joined
    have isStart : front.length + next.length = front.length + nextLast + 1 := by omega
    have isStop :
        front.length + next.length + ownLast = front.length + ownLast + 1 + nextLast := by
      omega
    rwa [isStop, isStart] at joined

/-! ## Words and scenes -/

namespace Scene

theorem Regular.not_plain_of_joins {scene : Scene} (regular : scene.Regular)
    {opening closing : Nat} (joins : scene.table.Joins opening closing) :
    ¬ scene.Plain closing := by
  intro plain
  have noBracket := plain _ (regular.closing_of_joins joins)
  simp [BranchPair.contains] at noBracket

section

variable {whole other withoutLeft withoutRight : Scene} {first middle last : Nat}

private theorem shown_of_excisions (le : first ≤ middle) (lt : middle < last)
    (left : whole.Excision withoutLeft first middle)
    (otherLeft : other.Excision withoutLeft (middleExchanged first middle last + 1) last)
    (right : whole.Excision withoutRight (middle + 1) last)
    (otherRight : other.Excision withoutRight first (middleExchanged first middle last))
    (position : Nat) :
    other.symbol? (placeExchanged first middle last position) = whole.symbol? position ∧
      other.word.arity (placeExchanged first middle last position) =
        whole.word.arity position := by
  have cases : Apart first middle position ∨ Apart (middle + 1) last position := by
    unfold Apart
    omega
  rcases cases with apart | apart
  · rcases placeExcised_exchanged_left le lt apart with ⟨otherApart, isPlace⟩
    rw [← otherLeft.symbol_eq _ otherApart, ← otherLeft.arity_eq _ otherApart, isPlace,
      left.symbol_eq _ apart, left.arity_eq _ apart]
    exact ⟨rfl, rfl⟩
  · rcases placeExcised_exchanged_right le lt apart with ⟨otherApart, isPlace⟩
    rw [← otherRight.symbol_eq _ otherApart, ← otherRight.arity_eq _ otherApart, isPlace,
      right.symbol_eq _ apart, right.arity_eq _ apart]
    exact ⟨rfl, rfl⟩

private theorem not_passage_behind {scene : Scene} (regular : scene.Regular)
    {opening closing start stop entered : Nat} (joins : scene.table.Joins opening closing)
    (plain : scene.Plain start) (after : opening ≤ start) (before : start ≤ closing)
    (beyond : closing < stop) : ¬ Passage scene (start + 1) entered stop := by
  intro passage
  have notLast : start ≠ closing := by
    rintro rfl
    exact regular.not_plain_of_joins joins plain
  have := passage.stop_le_of_inside regular joins (by omega) (by omega)
  omega

private theorem not_passage_back {scene : Scene} {start stop entered : Nat}
    (before : stop ≤ start) :
    ¬ Passage scene (start + 1) entered stop := by
  intro passage
  have := passage.start_le
  omega

/-- A word that is the same without the one branch and without the other is a
rearrangement. -/
theorem rearranged_of_excisions (regular : whole.Regular) (otherRegular : other.Regular)
    (le : first ≤ middle) (lt : middle < last)
    (left : whole.Excision withoutLeft first middle)
    (otherLeft : other.Excision withoutLeft (middleExchanged first middle last + 1) last)
    (right : whole.Excision withoutRight (middle + 1) last)
    (otherRight : other.Excision withoutRight first (middleExchanged first middle last)) :
    whole.Rearranged other (exchangePlaces le lt) := by
  have shown := shown_of_excisions le lt left otherLeft right otherRight
  have branches_eq := otherLeft.branches_eq.symm.trans left.branches_eq
  refine
    { regular, otherRegular, branches_eq
      ignored_eq := otherLeft.ignored_eq.symm.trans left.ignored_eq
      symbol_eq := fun position => (shown position).1
      arity_eq := fun position => (shown position).2
      passage_iff := ?_ }
  intro position stop entered plain stopPlain
  change Passage other (placeExchanged first middle last position + 1) entered
    (placeExchanged first middle last stop) ↔ _
  have otherPlain : other.Plain (placeExchanged first middle last position) := by
    rwa [Plain, (shown position).1, branches_eq]
  -- If one branch can be cut out with neither place inside it, the word without it
  -- decides; otherwise the places are in different branches and nothing leads across.
  have cases : (Apart first middle position ∧ Apart first middle stop) ∨
      (Apart (middle + 1) last position ∧ Apart (middle + 1) last stop) ∨
      (first ≤ position ∧ position ≤ middle ∧ middle < stop ∧ stop ≤ last) ∨
      (first ≤ stop ∧ stop ≤ middle ∧ middle < position ∧ position ≤ last) := by
    unfold Apart
    omega
  rcases cases with
    ⟨apart, stopApart⟩ | ⟨apart, stopApart⟩ | ⟨after, before, beyond, inside⟩ |
    ⟨after, before, beyond, inside⟩
  · rcases placeExcised_exchanged_left le lt apart with ⟨otherApart, isPlace⟩
    rcases placeExcised_exchanged_left le lt stopApart with ⟨otherStopApart, isStop⟩
    rw [← left.passage_iff regular apart stopApart,
      ← otherLeft.passage_iff otherRegular otherApart otherStopApart, isPlace, isStop]
  · rcases placeExcised_exchanged_right le lt apart with ⟨otherApart, isPlace⟩
    rcases placeExcised_exchanged_right le lt stopApart with ⟨otherStopApart, isStop⟩
    rw [← right.passage_iff regular apart stopApart,
      ← otherRight.passage_iff otherRegular otherApart otherStopApart, isPlace, isStop]
  · -- One is inside the left branch and the other inside the right one.
    rw [placeExchanged_left after before, placeExchanged_right le beyond inside]
    exact iff_of_false (not_passage_back (by omega))
      (not_passage_behind regular left.joins plain after before beyond)
  · rw [placeExchanged_right le beyond inside] at otherPlain ⊢
    rw [placeExchanged_left after before]
    unfold middleExchanged at otherRight
    exact iff_of_false
      (not_passage_behind otherRegular otherRight.joins otherPlain (by omega) (by omega)
        (by omega)) (not_passage_back (by omega))

end

end Scene

namespace Word

variable {word : Word} {first middle last : Nat}

/-- The word with the cells from `first` to `middle` behind those from `middle + 1` to
`last`. -/
def exchange (word : Word) (first middle last : Nat) : Word :=
  .ofCells (exchanged word.cells first middle last)

theorem compact_exchange (word : Word) (first middle last : Nat) :
    (word.exchange first middle last).Compact :=
  compact_ofCells _

theorem symbols_exchange (compact : word.Compact) (first middle last : Nat) :
    (word.exchange first middle last).symbols =
      (exchanged word.symbols.toList first middle last).toArray := by
  apply Array.toList_inj.mp
  rw [exchange, toList_symbols_ofCells, map_exchanged, map_symbol_cells compact]

theorem excise_exchange (compact : word.Compact) (le : first ≤ middle)
    (lt : middle < last) (inside : last < word.size) :
    (word.exchange first middle last).excise
        (middleExchanged first middle last + 1) last =
        word.excise first middle ∧
      (word.exchange first middle last).excise first (middleExchanged first middle last) =
        word.excise (middle + 1) last := by
  rw [← length_cells compact] at inside
  have same := excised_exchanged le lt inside
  simp only [excise, exchange, cells_ofCells, same, and_self]

theorem rearranged_exchange {branches : BranchPair Symbol} {ignored : SymbolSet}
    (compact : word.Compact) (opening : ignored.contains branches.opening = false)
    (closing : ignored.contains branches.closing = false)
    (left : (BracketTable.ofSymbols branches word.symbols).Joins first middle)
    (right : (BracketTable.ofSymbols branches word.symbols).Joins (middle + 1) last) :
    (Scene.ofWord branches ignored word).Rearranged
      (.ofWord branches ignored (word.exchange first middle last))
      (exchangePlaces (Nat.le_of_lt left.lt) (Nat.lt_of_succ_lt right.lt)) := by
  have inside : last < word.size := (Array.getElem?_eq_some_iff.mp right.kinds.2.1).1
  rcases excise_exchange compact (Nat.le_of_lt left.lt)
    (Nat.lt_of_succ_lt right.lt) inside with
    ⟨withoutLeft, withoutRight⟩
  have joined := BracketTable.joins_exchanged left right
  rw [← symbols_exchange compact] at joined
  apply Scene.rearranged_of_excisions (Scene.regular_ofWord word opening closing)
    (Scene.regular_ofWord _ opening closing)
  · exact excision_excise compact left
  · rw [← withoutLeft]
    exact excision_excise (compact_exchange ..) joined.2
  · exact excision_excise compact right
  · rw [← withoutRight]
    exact excision_excise (compact_exchange ..) joined.1

end Word

end LSystems
