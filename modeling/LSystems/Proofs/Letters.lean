import LSystems.Proofs.Alphabets
import LSystems.Proofs.Productions

/-!
# The letters of readings

A reading that comes to a result has met exactly the letters of what it has read, in
order. An alphabet that takes in letters that may name symbols has such letters only.
-/

namespace LSystems

namespace Reading

variable {α β : Type} {first : Reading α} {next : α → Reading β} {letter : Char}

@[simp]
theorem letters_pure (result : α) : (pure result : Reading α).letters = [] := rfl

@[simp]
theorem letters_lift (outcome : Except Error α) : (lift outcome).letters = [] := rfl

@[simp]
theorem letters_meet (letter : Char) : (meet letter).letters = [letter] := rfl

@[simp]
theorem outcome_meet (letter : Char) : (meet letter).outcome = .ok () := rfl

theorem letters_bind {result : α} (done : first.outcome = .ok result) :
    (first >>= next).letters = first.letters ++ (next result).letters := by
  change (Reading.bind first next).letters = _
  rw [Reading.bind, done]

theorem letters_bind_lift {outcome : Except Error α} {result : α}
    (done : outcome = .ok result) :
    (lift outcome >>= next).letters = (next result).letters :=
  letters_bind done

def Clean (reading : Reading α) : Prop :=
  ∀ letter ∈ reading.letters, isLetterSymbol letter = true

end Reading

open Reading

def Alphabet.Usable (alphabet : Alphabet) : Prop :=
  ∀ letter ∈ alphabet.letters, isLetterSymbol letter = true

theorem Alphabet.Usable.take {alphabet : Alphabet} (usable : alphabet.Usable) {α : Type}
    {reading : Reading α} (clean : reading.Clean) : (alphabet.take reading).2.Usable := by
  intro letter member
  rcases mem_or_mem_of_mem_internAll member with known | isMet
  · exact usable letter known
  · exact clean letter isMet

theorem Alphabet.usable_ofBranches {opening closing : Char} {branches : BranchPair Char}
    (done : branchLetters opening closing = .ok branches) :
    (ofBranches opening closing).Usable := by
  rcases of_branchLetters done with ⟨first, second, _⟩
  intro letter member
  have isBranch : letter ∈ (empty.internAll [opening, closing]).letters := member
  rcases mem_or_mem_of_mem_internAll isBranch with isEmpty | isBranch
  · contradiction
  · rcases List.mem_pair.mp isBranch with rfl | rfl
    · exact first
    · exact second

/-! ## Pieces -/

theorem letterFault?_eq_none_iff {letter : Char} :
    letterFault? letter = none ↔ letter ∉ reservedCharacters := by
  have parentheses : letter = '(' ∨ letter = ')' → letter ∈ reservedCharacters := by
    rintro (rfl | rfl) <;> decide
  unfold letterFault?
  split
  · next parenthesis => simpa using parentheses (by simpa using parenthesis)
  · simp

theorem isLetterSymbol_iff {letter : Char} :
    isLetterSymbol letter = true ↔
    Text.isBlank letter = false ∧ letterFault? letter = none := by
  rw [letterFault?_eq_none_iff]
  simp [isLetterSymbol]

theorem isLetterSymbol_of_mem_cut {offset : Nat} {text : List Char} {piece : Piece}
    (member : piece ∈ (cut offset text).1) : isLetterSymbol piece.letter = true := by
  fun_induction cut offset text with
  | case1 => contradiction
  | case2 offset letter rest isBlank induction => exact induction member
  | case3 => contradiction
  | case4 => contradiction
  | case5 offset letter rest notBlank faultless body _ _ inside behind
      _ _ _ pieces failure isCut
      induction =>
      rcases List.mem_cons.mp member with rfl | member
      · exact isLetterSymbol_iff.mpr ⟨by simpa using notBlank, faultless⟩
      · exact induction (isCut ▸ member)
  | case6 offset letter rest notBlank faultless _ _ pieces failure isCut induction =>
      rcases List.mem_cons.mp member with rfl | member
      · exact isLetterSymbol_iff.mpr ⟨by simpa using notBlank, faultless⟩
      · exact induction (isCut ▸ member)

theorem letters_readPieces {α : Type} {meaning : Piece → Except Error α}
    {letter : α → Char}
    (keeps : ∀ piece result, meaning piece = .ok result → letter result = piece.letter)
    {pieces : List Piece} {failure : Option Error} {results : List α}
    (done : (readPieces meaning (pieces, failure)).outcome = .ok results) :
    (readPieces meaning (pieces, failure)).letters = results.map letter := by
  induction pieces generalizing results with
  | nil =>
      cases failure with
      | none =>
          rw [readPieces] at done ⊢
          cases done
          rfl
      | some error =>
          rw [readPieces] at done
          contradiction
  | cons piece rest induction =>
      simp only [readPieces, outcome_bind, outcome_lift, outcome_meet, outcome_pure,
        bind_eq_ok] at done
      rcases done with ⟨first, isFirst, _, _, further, areFurther, equal⟩
      cases equal
      rw [readPieces, letters_bind_lift isFirst, letters_bind (outcome_meet _),
        letters_bind areFurther, induction areFurther, List.map_cons,
        keeps piece first isFirst]
      simp

/-! ## Patterns and replacements -/

theorem Emission.symbol_of_ofPiece {scope : Scope} {piece : Piece}
    {emission : Emission Char} (done : ofPiece scope piece = .ok emission) :
    emission.symbol = piece.letter := by
  simp only [ofPiece, bind_eq_ok, pure_eq_ok] at done
  rcases done with ⟨_, _, rfl⟩
  rfl

theorem letters_readBalanced {scope : Scope} {branches : BranchPair Char}
    {place : Section} {fragment : Fragment} {emissions : List (Emission Char)}
    (done : (readBalanced scope branches place fragment).outcome = .ok emissions) :
    (readBalanced scope branches place fragment).letters =
      emissions.map Emission.symbol := by
  rcases of_readBalanced done with ⟨areEmissions, isBalanced⟩
  rw [readBalanced, letters_bind areEmissions, letters_bind_lift isBalanced, letters_pure,
    List.append_nil]
  exact letters_readPieces (fun _ _ => Emission.symbol_of_ofPiece) areEmissions

namespace Production

def letters (production : Production) : List Char :=
  production.pattern.map PatternSymbol.letter ++
    production.replacement.map Emission.symbol

theorem mem_letters_of_mem_pattern {production : Production} {symbol : PatternSymbol}
    (member : symbol ∈ production.pattern) : symbol.letter ∈ production.letters :=
  List.mem_append_left _ (List.mem_map_of_mem member)

theorem mem_letters_of_mem_replacement {production : Production}
    {emission : Emission Char} (member : emission ∈ production.replacement) :
    emission.symbol ∈ production.letters :=
  List.mem_append_right _ (List.mem_map_of_mem member)

theorem letter_of_patternSymbol {piece : Piece} {symbol : PatternSymbol}
    (done : patternSymbol piece = .ok symbol) : symbol.letter = piece.letter := by
  simp only [patternSymbol, bind_eq_ok, pure_eq_ok] at done
  rcases done with ⟨_, _, rfl⟩
  rfl

theorem letters_readPattern {fragment : Fragment} {pattern : List PatternSymbol}
    (done : (readPattern fragment).outcome = .ok pattern) :
    (readPattern fragment).letters = pattern.map PatternSymbol.letter :=
  letters_readPieces (fun _ _ => letter_of_patternSymbol) done

theorem letters_readPattern? {fragment : Option Fragment} {pattern : List PatternSymbol}
    (done : (readPattern? fragment).outcome = .ok pattern) :
    (readPattern? fragment).letters = pattern.map PatternSymbol.letter := by
  cases fragment with
  | none =>
      cases done
      rfl
  | some fragment => exact letters_readPattern done

theorem eq_of_singleTarget {span : Span} {targets : List PatternSymbol}
    {target : PatternSymbol} (done : singleTarget span targets = .ok target) :
    targets = [target] := by
  unfold singleTarget at done
  split at done
  · cases done
    rfl
  · contradiction
  · contradiction

theorem letters_readContext {branches : BranchPair Char} {fragment : Fragment}
    {left right : List PatternSymbol} {target : PatternSymbol}
    (done : (readContext branches fragment).outcome = .ok (left, target, right)) :
    (readContext branches fragment).letters =
      (left ++ target :: right).map PatternSymbol.letter := by
  simp only [readContext, outcome_bind, outcome_lift, outcome_pure, bind_eq_ok] at done
  rcases done with
    ⟨outline, isOutline, left, isLeft, targets, areTargets, right, isRight, target,
      isTarget, _, areBranches, equal⟩
  cases equal
  cases eq_of_singleTarget isTarget
  rw [readContext, letters_bind_lift isOutline, letters_bind isLeft,
    letters_bind areTargets, letters_bind isRight, letters_bind_lift isTarget,
    letters_bind_lift areBranches,
    letters_readPattern? isLeft, letters_readPattern areTargets,
    letters_readPattern? isRight]
  simp

variable {globals : List String} {branches : BranchPair Char}

theorem letters_read {text : String} {production : Production}
    (done : (read globals branches text).outcome = .ok production) :
    (read globals branches text).letters = production.letters := by
  simp only [read, outcome_bind, outcome_lift, outcome_pure, bind_eq_ok] at done
  rcases done with ⟨outline, isOutline, probability, isProbability, ⟨left, target, right⟩,
    isContext, captured, isCaptured, scope, isScope, condition, isCondition, replacement,
    isReplacement, equal⟩
  cases equal
  rw [read, letters_bind_lift isOutline, letters_bind_lift isProbability,
    letters_bind isContext, letters_bind_lift isCaptured, letters_bind_lift isScope,
    letters_bind_lift isCondition,
    letters_bind isReplacement, letters_readContext isContext,
    letters_readBalanced isReplacement]
  simp [letters, pattern]

theorem letters_readAll {index : Nat} {texts : List String}
    {productions : List Production}
    (done : (readAll globals branches index texts).outcome = .ok productions) :
    (readAll globals branches index texts).letters = productions.flatMap letters := by
  induction texts generalizing index productions with
  | nil =>
      cases done
      rfl
  | cons text rest induction =>
      simp only [readAll, outcome_bind, outcome_pure, bind_eq_ok] at done
      rcases done with ⟨first, isFirst, further, areFurther, equal⟩
      cases equal
      rw [readAll, letters_bind isFirst, letters_bind areFurther, induction areFurther,
        letters_read (mapError_eq_ok.mp isFirst)]
      simp

end Production

end LSystems
