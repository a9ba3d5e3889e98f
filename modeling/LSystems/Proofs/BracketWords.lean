import LSystems.Proofs.Pairs
import Mathlib.Combinatorics.Enumerative.DyckWord

/-!
# Bracket words

The brackets of a row, without its other symbols, form a word that goes up and down; the
row is balanced if this is a Dyck word. The bracket table joins exactly the brackets
around balanced rows, whether the whole row is balanced or not, and every check of
balance accepts exactly the balanced rows. Main statement:
`BracketTable.partner?_and_checks_iff`.
-/

namespace LSystems

namespace BranchPair

variable {α : Type} [DecidableEq α] {branches : BranchPair α}

def dyckStep? (branches : BranchPair α) (symbol : α) : Option DyckStep :=
  if symbol = branches.opening then some .U
  else if symbol = branches.closing then some .D
  else none

/-- The brackets of the row are a balanced word of brackets. -/
def Balanced (branches : BranchPair α) (row : List α) : Prop :=
  ∃ word : DyckWord, word.toList = row.filterMap branches.dyckStep?

/-- An opening and a closing bracket with a balanced row between them. -/
structure Pair (branches : BranchPair α) (row : List α) (first second : Nat) : Prop where
  lt : first < second
  isOpening : row[first]? = some branches.opening
  isClosing : row[second]? = some branches.closing
  between : branches.Balanced ((row.take second).drop (first + 1))

/-! ## Steps up and down -/

private def StaysUp (height : Nat) (steps : List DyckStep) : Prop :=
  ∀ count, (steps.take count).count .D ≤ height + (steps.take count).count .U

private theorem staysUp_cons (height : Nat) (step : DyckStep) (steps : List DyckStep) :
    StaysUp height (step :: steps) ↔
      ∀ count, [step].count .D + (steps.take count).count .D ≤
        height + ([step].count .U + (steps.take count).count .U) := by
  have split : StaysUp height (step :: steps) ↔ _ := Nat.and_forall_add_one.symm
  rw [split]
  simp [List.count_cons, Nat.add_comm]

private theorem staysUp_up (height : Nat) (steps : List DyckStep) :
    StaysUp height (.U :: steps) ↔ StaysUp (height + 1) steps := by
  rw [staysUp_cons]
  refine forall_congr' fun count => ?_
  simp [Nat.add_assoc]

private theorem staysUp_down (height : Nat) (steps : List DyckStep) :
    StaysUp height (.D :: steps) ↔ height ≠ 0 ∧ StaysUp (height - 1) steps := by
  rw [staysUp_cons]
  cases height with
  | zero =>
      refine iff_of_false (fun stays => ?_) fun stays => stays.1 rfl
      exact absurd (stays 0) (by simp)
  | succ height =>
      refine Iff.trans (forall_congr' fun count => ?_)
        (and_iff_right (Nat.succ_ne_zero height)).symm
      have down : [DyckStep.D].count .D = 1 := rfl
      have notUp : [DyckStep.D].count .U = 0 := rfl
      omega

private theorem depth?_eq_some_iff_staysUp (branches : BranchPair α) (depth last : Nat)
    (row : List α) :
    branches.depth? depth row = some last ↔
      StaysUp depth (row.filterMap branches.dyckStep?) ∧
        last + (row.filterMap branches.dyckStep?).count .D =
          depth + (row.filterMap branches.dyckStep?).count .U := by
  induction row generalizing depth with
  | nil => simp [depth?, StaysUp, eq_comm]
  | cons symbol rest induction =>
      rw [depth?]
      split
      · next isOpening =>
          have up : branches.dyckStep? symbol = some .U := if_pos isOpening
          rw [List.filterMap_cons_some up, staysUp_up, induction]
          simp [Nat.add_assoc, Nat.add_comm 1]
      · next notOpening =>
          split
          · next isClosing =>
              have down : branches.dyckStep? symbol = some .D := by
                rw [dyckStep?, if_neg notOpening, if_pos isClosing]
              rw [List.filterMap_cons_some down, staysUp_down]
              split
              · next noneOpen => simp [noneOpen]
              · next someOpen =>
                  rw [induction, and_iff_right someOpen, List.count_cons_self,
                    List.count_cons_of_ne (by decide)]
                  exact and_congr_right fun _ => by omega
          · next notClosing =>
              have none : branches.dyckStep? symbol = none := by
                rw [dyckStep?, if_neg notOpening, if_neg notClosing]
              rw [List.filterMap_cons_none none]
              exact induction depth

theorem balanced_iff_depth? (row : List α) :
    branches.Balanced row ↔ branches.depth? 0 row = some 0 := by
  rw [depth?_eq_some_iff_staysUp]
  constructor
  · rintro ⟨word, isWord⟩
    rw [← isWord]
    refine ⟨fun count => ?_, ?_⟩
    · simpa using word.count_D_le_count_U count
    · simpa using word.count_U_eq_count_D.symm
  · rintro ⟨stays, level⟩
    exact ⟨⟨_, by simpa using level.symm, fun count => by simpa using stays count⟩, rfl⟩

end BranchPair

theorem Alphabet.checkBalance_eq_ok_iff_balanced {alphabet : Alphabet}
    {branches : BranchPair Char} {place : Section} {row : List (Char × Span)}
    (known : ∀ located ∈ row, located.1 ∈ alphabet.letters) :
    checkBalance branches place [] row = .ok () ↔
      (alphabet.codes branches).Balanced
        (row.map fun located => alphabet.code located.1) := by
  have letters : ∀ letter ∈ row.map Prod.fst, letter ∈ alphabet.letters := by
    simpa using fun letter span member => known (letter, span) member
  have codes := depth?_codes branches letters 0
  rw [List.map_map] at codes
  rw [checkBalance_eq_ok_iff, BranchPair.balanced_iff_depth?, List.length_nil, ← codes]
  rfl

namespace BracketTable

variable {branches : BranchPair Symbol} {symbols : Array Symbol} {first second : Nat}

/-! ## Tables -/

theorem joins_iff_pair (different : branches.opening ≠ branches.closing) :
    (ofSymbols branches symbols).Joins first second ↔
      branches.Pair symbols.toList first second := by
  rw [joins_iff, ← BranchPair.balanced_iff_depth?, ← Array.getElem?_toList,
    ← Array.getElem?_toList]
  constructor
  · rintro ⟨lt, isOpening, isClosing, _, between⟩
    exact ⟨lt, isOpening, isClosing, between⟩
  · rintro ⟨lt, isOpening, isClosing, between⟩
    exact ⟨lt, isOpening, isClosing, different.symm, between⟩

theorem isBalanced_eq_true_iff (table : BracketTable) :
    table.isBalanced = true ↔ table.validate = .ok () := by
  simp only [isBalanced, validate, Bool.and_eq_true, decide_eq_true_eq]
  split
  · next surplus => simp [Nat.ne_of_gt surplus]
  · next noSurplus =>
      split
      · next opened => simp [Nat.ne_of_gt opened]
      · next noOpened => exact iff_of_true ⟨by omega, by omega⟩ rfl

/-- For every row of symbols, balanced or not. The table joins two brackets exactly if
the first opens, the second closes and the row between them is balanced, it joins them
in both directions, and it has no other entries. The table counts no bracket without a
partner, and is valid, exactly if the whole row is balanced; so the check of located
symbols passes, and that of located letters which an alphabet numbers so. -/
theorem partner?_and_checks_iff (different : branches.opening ≠ branches.closing)
    (symbols : Array Symbol) :
    let table := ofSymbols branches symbols
    (∀ first second, table.partner? first = some second ∧ first < second ↔
      branches.Pair symbols.toList first second) ∧
    (∀ position partner, table.partner? position = some partner ↔
      table.partner? partner = some position) ∧
    (∀ position partner, table.partner? position = some partner →
      branches.Pair symbols.toList position partner ∨
        branches.Pair symbols.toList partner position) ∧
    (table.isBalanced = true ↔ branches.Balanced symbols.toList) ∧
    (table.validate = .ok () ↔ branches.Balanced symbols.toList) ∧
    (∀ (place : Section) (row : List (Symbol × Span)), row.map Prod.fst = symbols.toList →
      (checkBalance branches place [] row = .ok () ↔ branches.Balanced symbols.toList)) ∧
    ∀ (alphabet : Alphabet) (letters : BranchPair Char) (place : Section)
      (row : List (Char × Span)), alphabet.codes letters = branches →
      (∀ located ∈ row, located.1 ∈ alphabet.letters) →
      (row.map fun located => alphabet.code located.1) = symbols.toList →
      (checkBalance letters place [] row = .ok () ↔
        branches.Balanced symbols.toList) := by
  intro table
  have valid : table.validate = .ok () ↔ branches.Balanced symbols.toList := by
    rw [validate_eq_ok_iff, BranchPair.balanced_iff_depth?]
  have joined : ∀ position partner, table.partner? position = some partner →
      table.Joins position partner ∨ table.Joins partner position :=
    fun _ _ => joins_of_partner?
  refine ⟨fun first second => ?_, ?_, ?_, ?_, valid, ?_, ?_⟩
  · rw [← joins_iff_pair different]
    refine ⟨fun ⟨found, lt⟩ => ?_, fun joins => ⟨joins.forward, joins.lt⟩⟩
    rcases joined first second found with joins | joins
    · exact joins
    · exact absurd joins.lt (Nat.lt_asymm lt)
  · have symmetric : ∀ position partner, table.partner? position = some partner →
        table.partner? partner = some position := by
      intro position partner found
      rcases joined position partner found with joins | joins
      · exact joins.backward
      · exact joins.forward
    exact fun position partner => ⟨symmetric position partner, symmetric partner position⟩
  · intro position partner found
    rw [← joins_iff_pair different, ← joins_iff_pair different]
    exact joined position partner found
  · rw [isBalanced_eq_true_iff, valid]
  · intro place row isRow
    rw [checkBalance_eq_ok_iff, isRow, List.length_nil, BranchPair.balanced_iff_depth?]
  · intro alphabet letters place row codes known isRow
    rw [Alphabet.checkBalance_eq_ok_iff_balanced known, codes, isRow]

/-- In `][A[]][` the second bracket and the fifth are partners although the row is not
balanced. -/
theorem partner?_and_checks_iff_unbalanced :
    let branches : BranchPair Symbol := ⟨0, 1⟩
    let symbols : Array Symbol := #[1, 0, 2, 0, 1, 1, 0]
    let table := ofSymbols branches symbols
    branches.opening ≠ branches.closing ∧ table.partner? 5 = some 1 ∧
      branches.Pair symbols.toList 1 5 ∧ table.isBalanced = false ∧
      ¬ branches.Balanced symbols.toList := by
  intro branches symbols table
  have different : branches.opening ≠ branches.closing := by decide
  have found : table.partner? 5 = some 1 := by decide +kernel
  have unbalanced : table.isBalanced = false := by decide +kernel
  rcases partner?_and_checks_iff different symbols with ⟨pairs, symmetric, _, balanced, _⟩
  refine ⟨different, found, (pairs 1 5).mp ⟨(symmetric 5 1).mp found, by decide⟩,
    unbalanced, ?_⟩
  rw [← balanced, unbalanced]
  exact Bool.false_ne_true

end BracketTable

end LSystems
