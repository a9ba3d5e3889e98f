import LSystems.Proofs.Context.Passage
import LSystems.Proofs.Words

/-!
# Words without their hidden symbols

Deleting the symbols of a set from a word moves every other symbol to the place that the
kept symbols in front of it leave to it. Brackets that are kept keep their partners,
also where some have none. Main statement: `Word.pruning_without`.
-/

namespace LSystems

/-! ## Rows without some of their members -/

section Rows

variable {α β : Type} {keeps : α → Bool} {row : List α} {position : Nat} {member : α}

def keptBefore (keeps : α → Bool) (row : List α) (position : Nat) : Nat :=
  (row.take position).countP keeps

theorem keptBefore_kept (found : row[position]? = some member)
    (kept : keeps member = true) :
    keptBefore keeps row (position + 1) = keptBefore keeps row position + 1 := by
  simp [keptBefore, List.take_add_one, found, kept]

theorem keptBefore_dropped (found : row[position]? = some member)
    (dropped : keeps member = false) :
    keptBefore keeps row (position + 1) = keptBefore keeps row position := by
  simp [keptBefore, List.take_add_one, found, dropped]

theorem keptBefore_mono (keeps : α → Bool) (row : List α) {other : Nat}
    (le : position ≤ other) :
    keptBefore keeps row position ≤ keptBefore keeps row other :=
  (List.take_sublist_take_left le).countP_le

theorem keptBefore_lt (found : row[position]? = some member) (kept : keeps member = true)
    {other : Nat} (lt : position < other) :
    keptBefore keeps row position < keptBefore keeps row other := by
  have next : keptBefore keeps row (position + 1) ≤ _ := keptBefore_mono keeps row lt
  rw [keptBefore_kept found kept] at next
  exact next

theorem getElem?_filter_kept (found : row[position]? = some member)
    (kept : keeps member = true) :
    (row.filter keeps)[keptBefore keeps row position]? = some member := by
  rcases List.getElem?_eq_some_iff.mp found with ⟨inside, isMember⟩
  have split : row = row.take position ++ member :: row.drop (position + 1) := by
    rw [← isMember, List.getElem_cons_drop, List.take_append_drop]
  rw [keptBefore, List.countP_eq_length_filter]
  conv => lhs; arg 1; rw [split, List.filter_append, List.filter_cons_of_pos kept]
  rw [List.getElem?_append_right (Nat.le_refl _), Nat.sub_self, List.getElem?_cons_zero]

theorem getElem?_filter_behind (missing : row[position]? = none) :
    (row.filter keeps)[keptBefore keeps row position]? = none := by
  have outside := List.getElem?_eq_none_iff.mp missing
  rw [keptBefore, List.take_of_length_le outside, List.countP_eq_length_filter]
  exact List.getElem?_eq_none (Nat.le_refl _)

theorem keptBefore_map (change : β → α) (keeps : α → Bool) (row : List β)
    (position : Nat) :
    keptBefore keeps (row.map change) position =
      keptBefore (keeps ∘ change) row position := by
  rw [keptBefore, ← List.map_take, List.countP_map, keptBefore]

end Rows

/-! ## Brackets -/

namespace BracketTable

variable {branches : BranchPair Symbol} {keeps : Symbol → Bool} {symbols : List Symbol}

/-- Partners of the first `count` symbols of a row, and of those of them that are kept:
a symbol that is kept has the same partner, at its new place. -/
structure Follows (keeps : Symbol → Bool) (symbols : List Symbol) (count : Nat)
    (whole kept : Array (Option Nat)) : Prop where
  whole_size : whole.size = count
  kept_size : kept.size = keptBefore keeps symbols count
  entry : ∀ position < count, ∀ symbol, symbols[position]? = some symbol →
    keeps symbol = true →
    kept[keptBefore keeps symbols position]? =
      whole[position]?.map (Option.map (keptBefore keeps symbols))

namespace Follows

variable {count : Nat} {whole kept : Array (Option Nat)} {symbol : Symbol}

theorem push_dropped (follows : Follows keeps symbols count whole kept)
    (found : symbols[count]? = some symbol) (dropped : keeps symbol = false)
    (partner : Option Nat) :
    Follows keeps symbols (count + 1) (whole.push partner) kept where
  whole_size := by rw [Array.size_push, follows.whole_size]
  kept_size := by rw [keptBefore_dropped found dropped, follows.kept_size]
  entry := by
    intro position lt other isOther isKept
    have old : position ≠ count := by
      rintro rfl
      cases found.symm.trans isOther
      exact Bool.noConfusion (isKept.symm.trans dropped)
    have before : position < count := Nat.lt_of_le_of_ne (Nat.le_of_lt_succ lt) old
    rw [Array.getElem?_push, follows.whole_size, if_neg old]
    exact follows.entry position before other isOther isKept

theorem push_kept (follows : Follows keeps symbols count whole kept)
    (found : symbols[count]? = some symbol) (isKept : keeps symbol = true)
    (partner : Option Nat) :
    Follows keeps symbols (count + 1) (whole.push partner)
      (kept.push (partner.map (keptBefore keeps symbols))) where
  whole_size := by rw [Array.size_push, follows.whole_size]
  kept_size := by rw [Array.size_push, keptBefore_kept found isKept, follows.kept_size]
  entry := by
    intro position lt other isOther alsoKept
    rw [Array.getElem?_push, Array.getElem?_push, follows.whole_size, follows.kept_size]
    by_cases isNew : position = count
    · rw [isNew, if_pos rfl, if_pos rfl, Option.map_some]
    · have before : position < count := Nat.lt_of_le_of_ne (Nat.le_of_lt_succ lt) isNew
      rw [if_neg (Nat.ne_of_lt (keptBefore_lt isOther alsoKept before)), if_neg isNew]
      exact follows.entry position before other isOther alsoKept

theorem set (follows : Follows keeps symbols count whole kept) {position : Nat}
    (lt : position < count) (found : symbols[position]? = some symbol)
    (isKept : keeps symbol = true) (partner : Option Nat) :
    Follows keeps symbols count (whole.setIfInBounds position partner)
      (kept.setIfInBounds (keptBefore keeps symbols position)
        (partner.map (keptBefore keeps symbols))) where
  whole_size := by rw [Array.size_setIfInBounds, follows.whole_size]
  kept_size := by rw [Array.size_setIfInBounds, follows.kept_size]
  entry := by
    intro other otherLt further isFurther alsoKept
    by_cases same : other = position
    · have inside : position < whole.size := follows.whole_size ▸ lt
      have alsoInside : keptBefore keeps symbols position < kept.size :=
        follows.kept_size ▸ keptBefore_lt found isKept lt
      rw [same, Array.getElem?_setIfInBounds_self_of_lt inside,
        Array.getElem?_setIfInBounds_self_of_lt alsoInside, Option.map_some]
    · have different :
          keptBefore keeps symbols position ≠ keptBefore keeps symbols other := by
        rcases Nat.lt_or_gt_of_ne same with before | behind
        · exact Nat.ne_of_gt (keptBefore_lt isFurther alsoKept before)
        · exact Nat.ne_of_lt (keptBefore_lt found isKept behind)
      rw [Array.getElem?_setIfInBounds_ne different,
        Array.getElem?_setIfInBounds_ne (Ne.symm same)]
      exact follows.entry other otherLt further isFurther alsoKept

end Follows

structure Progress.Follows (keeps : Symbol → Bool) (symbols : List Symbol) (count : Nat)
    (whole kept : Progress) : Prop where
  partners : BracketTable.Follows keeps symbols count whole.partners kept.partners
  opened : kept.opened = whole.opened.map (keptBefore keeps symbols)
  opened_kept : ∀ position ∈ whole.opened, position < count ∧
    ∃ symbol, symbols[position]? = some symbol ∧ keeps symbol = true

namespace Progress.Follows

variable {count : Nat} {whole kept : Progress} {symbol : Symbol}

theorem start : Follows keeps symbols 0 .start .start :=
  ⟨⟨rfl, rfl, nofun⟩, rfl, nofun⟩

private theorem later (follows : Follows keeps symbols count whole kept) {position : Nat}
    (member : position ∈ whole.opened) : position < count + 1 ∧
      ∃ symbol, symbols[position]? = some symbol ∧ keeps symbol = true :=
  ⟨Nat.lt_succ_of_lt (follows.opened_kept position member).1,
    (follows.opened_kept position member).2⟩

theorem step_dropped (follows : Follows keeps symbols count whole kept)
    (found : symbols[count]? = some symbol) (dropped : keeps symbol = false)
    (noBracket : branches.contains symbol = false) :
    Follows keeps symbols (count + 1) (whole.step branches symbol) kept := by
  simp only [BranchPair.contains, Bool.or_eq_false_iff,
    decide_eq_false_iff_not] at noBracket
  rw [Progress.step, if_neg noBracket.1, if_neg noBracket.2]
  exact ⟨follows.partners.push_dropped found dropped none, follows.opened,
    fun _ => follows.later⟩

theorem step_kept (follows : Follows keeps symbols count whole kept)
    (found : symbols[count]? = some symbol) (isKept : keeps symbol = true) :
    Follows keeps symbols (count + 1) (whole.step branches symbol)
      (kept.step branches symbol) := by
  have pushed := follows.partners.push_kept found isKept none
  unfold Progress.step
  split
  · refine ⟨pushed, ?_, fun position member => ?_⟩
    · rw [follows.partners.whole_size, follows.partners.kept_size, follows.opened,
        List.map_cons]
    · rcases List.mem_cons.mp member with rfl | member
      · rw [follows.partners.whole_size]
        exact ⟨Nat.lt_succ_self count, symbol, found, isKept⟩
      · exact follows.later member
  · split
    · have opened := follows.opened
      cases isOpened : whole.opened with
      | nil =>
          rw [isOpened, List.map_nil] at opened
          rw [opened]
          exact ⟨pushed, rfl, nofun⟩
      | cons innermost rest =>
          rw [isOpened, List.map_cons] at opened
          rw [opened]
          have inner :=
            follows.opened_kept innermost (by rw [isOpened]; exact List.mem_cons_self)
          rcases inner with ⟨lt, other, isOther, alsoKept⟩
          have closed :=
            (follows.partners.set lt isOther alsoKept (some count)).push_kept found
            isKept (some innermost)
          refine ⟨?_, rfl, fun position member => ?_⟩
          · rw [follows.partners.whole_size, follows.partners.kept_size]
            exact closed
          · exact follows.later (isOpened ▸ List.mem_cons_of_mem _ member)
    · exact ⟨pushed, follows.opened, fun _ => follows.later⟩

theorem foldl
    (noBracket : ∀ symbol, keeps symbol = false → branches.contains symbol = false)
    (rest : List Symbol) {before : List Symbol} (split : before ++ rest = symbols)
    (follows : Follows keeps symbols before.length whole kept) :
    Follows keeps symbols symbols.length (rest.foldl (Progress.step branches) whole)
      ((rest.filter keeps).foldl (Progress.step branches) kept) := by
  induction rest generalizing before whole kept with
  | nil =>
      rw [List.append_nil] at split
      exact split ▸ follows
  | cons symbol rest induction =>
      have found : symbols[before.length]? = some symbol := by
        rw [← split, List.getElem?_append_right (Nat.le_refl _), Nat.sub_self,
          List.getElem?_cons_zero]
      have further : (before ++ [symbol]) ++ rest = symbols := by
        rw [List.append_assoc, List.singleton_append, split]
      have length : (before ++ [symbol]).length = before.length + 1 := by simp
      rw [List.foldl_cons]
      cases isKept : keeps symbol with
      | true =>
          rw [List.filter_cons_of_pos isKept, List.foldl_cons]
          exact induction further (length ▸ follows.step_kept found isKept)
      | false =>
          rw [List.filter_cons_of_neg (by simp [isKept])]
          exact induction further
            (length ▸ follows.step_dropped found isKept (noBracket symbol isKept))

end Progress.Follows

theorem partner?_filter
    (noBracket : ∀ symbol, keeps symbol = false → branches.contains symbol = false)
    {position : Nat} {symbol : Symbol} (found : symbols[position]? = some symbol)
    (isKept : keeps symbol = true) :
    (ofSymbols branches (symbols.filter keeps).toArray).partner?
        (keptBefore keeps symbols position) =
      ((ofSymbols branches symbols.toArray).partner? position).map
        (keptBefore keeps symbols) := by
  have follows := Progress.Follows.start.foldl noBracket symbols (List.nil_append symbols)
  have inside := (List.getElem?_eq_some_iff.mp found).1
  have entry := follows.partners.entry position inside symbol found isKept
  rw [partner?, ofSymbols, partner?, ofSymbols, List.foldl_toArray,
    List.foldl_toArray, entry]
  cases (symbols.foldl (Progress.step branches) Progress.start).partners[position]? with
  | none => rfl
  | some partner => rfl

end BracketTable

/-! ## Words and scenes -/

def Scene.Seen (scene : Scene) (position : Nat) : Prop :=
  ∃ symbol, scene.symbol? position = some symbol ∧ scene.ignored.contains symbol = false

theorem Scene.Visible.seen {scene : Scene} {position : Nat}
    (visible : scene.Visible position) :
    scene.Seen position :=
  visible.imp fun _ ⟨found, seen, _⟩ => ⟨found, seen⟩

/-- A scene without the symbols that another one ignores: what is seen is at its new
place, with its parameters and its partner. -/
structure Scene.Pruning (whole pruned : Scene) (place : Nat → Nat) : Prop where
  branches_eq : pruned.branches = whole.branches
  none_ignored : ∀ symbol, pruned.ignored.contains symbol = false
  place_zero : place 0 = 0
  missing : ∀ position, whole.symbol? position = none →
    pruned.symbol? (place position) = none
  place_ignored : ∀ position symbol, whole.symbol? position = some symbol →
    whole.ignored.contains symbol = true → place (position + 1) = place position
  place_seen : ∀ position, whole.Seen position → place (position + 1) = place position + 1
  place_lt : ∀ position, whole.Seen position → ∀ other, position < other →
    place position < place other
  symbol_eq : ∀ position, whole.Seen position →
    pruned.symbol? (place position) = whole.symbol? position
  parameters_eq : ∀ position, whole.Seen position →
    pruned.word.parameters (place position) = whole.word.parameters position
  arity_eq : ∀ position, whole.Seen position →
    pruned.word.arity (place position) = whole.word.arity position
  partner_eq : ∀ position, whole.Seen position →
    pruned.table.partner? (place position) = (whole.table.partner? position).map place

namespace Word

variable {word : Word} {hidden : SymbolSet} {position : Nat} {symbol : Symbol}

/-- The word without the cells whose symbols are in the set. -/
def without (word : Word) (hidden : SymbolSet) : Word :=
  .ofCells (word.cells.filter fun cell => !hidden.contains cell.symbol)

/-- The place that a position has when the cells whose symbols are in the set are
deleted. -/
def placeWithout (word : Word) (hidden : SymbolSet) : Nat → Nat :=
  keptBefore (fun symbol => !hidden.contains symbol) word.symbols.toList

theorem map_symbol_cells (compact : word.Compact) :
    word.cells.map Cell.symbol = word.symbols.toList := by
  rw [← toList_symbols_ofCells, ofCells_cells compact]

theorem arity_eq_length (compact : word.Compact) (inside : position < word.size) :
    word.arity position = (word.parameters position).length := by
  rcases compact.at_position inside with ⟨_, place, _, isPlace, _, _, _, count⟩
  rw [count, arity, isPlace, Option.map_some, Option.getD_some]

theorem compact_without (word : Word) (hidden : SymbolSet) :
    (word.without hidden).Compact :=
  compact_ofCells _

theorem symbols_without (compact : word.Compact) :
    (word.without hidden).symbols.toList =
      word.symbols.toList.filter fun symbol => !hidden.contains symbol := by
  rw [without, toList_symbols_ofCells, ← map_symbol_cells compact, List.filter_map]
  rfl

theorem cells_without (compact : word.Compact)
    (found : word.symbols[position]? = some symbol)
    (seen : hidden.contains symbol = false) :
    (word.without hidden).cells[word.placeWithout hidden position]? =
      some ⟨symbol, word.parameters position⟩ := by
  have isCell : word.cells[position]? = some ⟨symbol, word.parameters position⟩ := by
    rw [getElem?_cells compact, found, Option.map_some]
  rw [without, cells_ofCells, placeWithout, ← map_symbol_cells compact, keptBefore_map]
  exact getElem?_filter_kept isCell (congrArg Bool.not seen)

theorem parameters_without (compact : word.Compact)
    (found : word.symbols[position]? = some symbol)
    (seen : hidden.contains symbol = false) :
    (word.without hidden).symbols[word.placeWithout hidden position]? = some symbol ∧
      (word.without hidden).parameters (word.placeWithout hidden position) =
        word.parameters position := by
  have isCell := cells_without compact found seen
  rw [getElem?_cells (compact_without word hidden)] at isCell
  rcases Option.map_eq_some_iff.mp isCell with ⟨other, isOther, same⟩
  rcases Cell.mk.inj same with ⟨rfl, parameters⟩
  exact ⟨isOther, parameters⟩

theorem pruning_without {branches : BranchPair Symbol} (compact : word.Compact)
    (opening : hidden.contains branches.opening = false)
    (closing : hidden.contains branches.closing = false) :
    (Scene.ofWord branches hidden word).Pruning
      (.ofWord branches .empty (word.without hidden)) (word.placeWithout hidden) where
  branches_eq := rfl
  none_ignored := fun _ => rfl
  place_zero := rfl
  missing := by
    intro position missing
    rw [Scene.symbol?, Scene.ofWord, ← Array.getElem?_toList] at missing ⊢
    rw [symbols_without compact]
    exact getElem?_filter_behind missing
  place_ignored := by
    intro position symbol found ignored
    rw [Scene.symbol?, Scene.ofWord, ← Array.getElem?_toList] at found
    exact keptBefore_dropped found (congrArg Bool.not ignored)
  place_seen := by
    rintro position ⟨symbol, found, seen⟩
    rw [Scene.symbol?, Scene.ofWord, ← Array.getElem?_toList] at found
    exact keptBefore_kept found (congrArg Bool.not seen)
  place_lt := by
    rintro position ⟨symbol, found, seen⟩ other lt
    rw [Scene.symbol?, Scene.ofWord, ← Array.getElem?_toList] at found
    exact keptBefore_lt found (congrArg Bool.not seen) lt
  symbol_eq := by
    rintro position ⟨symbol, found, seen⟩
    exact (parameters_without compact found seen).1.trans found.symm
  parameters_eq := by
    rintro position ⟨symbol, found, seen⟩
    exact (parameters_without compact found seen).2
  arity_eq := by
    rintro position ⟨symbol, found, seen⟩
    rcases parameters_without compact found seen with ⟨alsoFound, parameters⟩
    have inside := (Array.getElem?_eq_some_iff.mp found).1
    have alsoInside := (Array.getElem?_eq_some_iff.mp alsoFound).1
    have arity := arity_eq_length (compact_without word hidden) alsoInside
    exact arity.trans
      ((congrArg List.length parameters).trans (arity_eq_length compact inside).symm)
  partner_eq := by
    rintro position ⟨symbol, found, seen⟩
    rw [Scene.symbol?, Scene.ofWord, ← Array.getElem?_toList] at found
    have noBracket : ∀ symbol, (!hidden.contains symbol) = false →
        branches.contains symbol = false := by
      intro symbol isHidden
      rw [Bool.not_eq_false'] at isHidden
      exact (Scene.regular_ofWord word opening closing).not_bracket_of_ignored isHidden
    have partner := BracketTable.partner?_filter noBracket found (congrArg Bool.not seen)
    rw [← symbols_without compact] at partner
    exact partner

end Word

end LSystems
