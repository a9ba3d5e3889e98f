import LSystems.Proofs.Balance
import LSystems.Proofs.Expr.Numbers
import LSystems.Proofs.Terms

/-!
# Words as text

The text of a word is a row of terms, one for each of its cells, and the arguments of a
term are the texts of the parameters. So a balanced word is what its own text is read
as, if its letters may be read and its parameters have numerals. Main statement:
`Alphabet.parseInitial_text`.
-/

namespace LSystems

/-! ## Cells as terms -/

/-- The cell can be written and read: its symbol has a letter, and its parameters have
numerals. -/
structure Legible (alphabet : Alphabet) (cell : Cell) : Prop where
  letter :
    ∃ letter, alphabet.letter? cell.symbol = some letter ∧ isLetterSymbol letter = true
  finite : ∀ value ∈ cell.parameters, value.isFinite = true

def Cell.term (alphabet : Alphabet) (cell : Cell) : Term Float :=
  ⟨(alphabet.letter? cell.symbol).getD '?', cell.parameters⟩

variable {alphabet : Alphabet} {cell : Cell} {cells : List Cell}

theorem cellText_eq (alphabet : Alphabet) (cell : Cell) :
    Word.cellText alphabet cell = (cell.term alphabet).text numeralText := by
  rcases cell with ⟨symbol, parameters⟩
  rw [Word.cellText, String.toList_intercalate, List.map_map]
  cases parameters <;> rfl

theorem toList_text_ofCells (alphabet : Alphabet) (cells : List Cell) :
    ((Word.ofCells cells).text alphabet).toList =
      rowText numeralText (cells.map (Cell.term alphabet)) := by
  rw [Word.text, Word.cells_ofCells, String.toList_ofList, rowText, List.flatMap_map]
  exact congrArg (cells.flatMap ·) (funext (cellText_eq alphabet))

theorem Legible.term (legible : Legible alphabet cell) :
    (cell.term alphabet).Legible numeralText := by
  rcases legible.letter with ⟨letter, isLetter, usable⟩
  refine ⟨?_, fun value member => isArgument_numeralText (legible.finite value member)⟩
  rw [Cell.term, isLetter]
  exact usable

/-! ## Words -/

def Spells (alphabet : Alphabet) (emission : Emission Char) (cell : Cell) : Prop :=
  alphabet.letter? cell.symbol = some emission.symbol ∧
    emission.parameters.map BoundExpr.root = cell.parameters.map .literal

theorem Emission.Meets.spells {emission : Emission Char} (legible : Legible alphabet cell)
    (meets : emission.Meets (fun bound value => bound.root = .literal value)
      (cell.term alphabet)) : Spells alphabet emission cell := by
  rcases legible.letter with ⟨letter, isLetter, _⟩
  refine ⟨?_, ?_⟩
  · rw [meets.letter, Cell.term, isLetter]
    rfl
  · rw [← List.forall₂_eq_eq_eq, List.forall₂_map_left_iff, List.forall₂_map_right_iff]
    exact meets.parameters

theorem exists_readEmissions_text (legible : ∀ cell ∈ cells, Legible alphabet cell)
    (scope : Scope) (offset : Nat) :
    ∃ emissions,
      (readEmissions scope
        ⟨offset, ((Word.ofCells cells).text alphabet).toList⟩).outcome =
        .ok emissions ∧
      List.Forall₂ (Spells alphabet) emissions cells := by
  have terms : ∀ term ∈ cells.map (Cell.term alphabet), term.Legible numeralText ∧
      ∀ value ∈ term.arguments, value.isFinite = true := by
    intro term member
    rcases List.mem_map.mp member with ⟨cell, isCell, rfl⟩
    exact ⟨(legible cell isCell).term, (legible cell isCell).finite⟩
  have isRead := exists_readEmissions (fun term member => (terms term member).1)
    (fun term member value isValue blanks blank =>
      Scope.exists_compile_floatText scope ((terms term member).2 value isValue) blank)
    (rfl : [].all Text.isBlank = true) (rfl : [].all Text.isBlank = true) offset
  rcases isRead with ⟨emissions, isOutcome, met⟩
  rw [List.nil_append, List.append_nil, ← toList_text_ofCells] at isOutcome
  refine ⟨emissions, isOutcome, ?_⟩
  rw [List.forall₂_map_right_iff] at met
  clear isOutcome terms
  induction met with
  | nil => exact .nil
  | cons isMet _ induction =>
      rcases List.forall_mem_cons.mp legible with ⟨isLegible, legible⟩
      exact .cons (isMet.spells isLegible) (induction legible)

variable {branches : BranchPair Char} {emissions : List (Emission Char)}

theorem Spells.cell_eq {emission : Emission Char}
    (spells : Spells alphabet emission cell) :
    (emission.rename alphabet.code).cell [] [] = cell := by
  rcases cell with ⟨symbol, parameters⟩
  have values : (emission.parameters.map BoundExpr.root).map (Slots.evaluate [] []) =
      parameters := by
    rw [spells.2, List.map_map]
    exact List.map_id parameters
  rw [List.map_map] at values
  exact congrArg₂ Cell.mk (Alphabet.code_of_letter? spells.1) values

theorem ofEmissions_of_spelled
    (spelled : List.Forall₂ (Spells alphabet) emissions cells) :
    Word.ofEmissions alphabet.code emissions = .ofCells cells := by
  rw [Word.ofEmissions]
  congr 1
  induction spelled with
  | nil => rfl
  | cons first _ induction => rw [List.map_cons, first.cell_eq, induction]

theorem letters_of_spelled (spelled : List.Forall₂ (Spells alphabet) emissions cells) :
    (∀ letter ∈ emissions.map Emission.symbol, letter ∈ alphabet.letters) ∧
      (emissions.map Emission.symbol).map alphabet.code = cells.map Cell.symbol := by
  induction spelled with
  | nil => exact ⟨nofun, rfl⟩
  | cons first _ induction =>
      refine ⟨List.forall_mem_cons.mpr ⟨Alphabet.mem_of_letter? first.1, induction.1⟩, ?_⟩
      rw [List.map_cons, List.map_cons, List.map_cons, induction.2,
        Alphabet.code_of_letter? first.1]

theorem Alphabet.parseInitial_text (legible : ∀ cell ∈ cells, Legible alphabet cell)
    (balanced : (alphabet.codes branches).depth? 0 (cells.map Cell.symbol) = some 0) :
    alphabet.parseInitial branches ((Word.ofCells cells).text alphabet) =
      (.ok (.ofCells cells), alphabet) := by
  rcases exists_readEmissions_text legible Scope.empty 0 with
    ⟨emissions, areRead, spelled⟩
  rcases letters_of_spelled spelled with ⟨known, codes⟩
  have isBalanced : checkBalance branches .initialWord []
      (emissions.map fun emission => (emission.symbol, emission.span)) = .ok () := by
    apply checkBalance_eq_ok_iff.mpr
    rw [List.map_map]
    rw [← codes, depth?_codes branches known] at balanced
    exact balanced
  have isRead : (readBalanced Scope.empty branches .initialWord
      ⟨0, ((Word.ofCells cells).text alphabet).toList⟩).outcome = .ok emissions :=
    outcome_readBalanced areRead isBalanced
  have unchanged : alphabet.internAll (readBalanced Scope.empty branches .initialWord
      ⟨0, ((Word.ofCells cells).text alphabet).toList⟩).letters = alphabet := by
    rw [letters_readBalanced isRead]
    exact internAll_of_known known
  simp only [parseInitial, readWord, take, unchanged, isRead, Except.map,
    ofEmissions_of_spelled spelled]

end LSystems
