import LSystems.Proofs.Balance
import LSystems.Proofs.Terms

/-!
# Texts one behind another

What a text is cut into is said by a grammar without any place in it: letters, arguments
in balanced parentheses, and blanks. A text of the grammar may be followed by any other
one. So if two texts are words to start from, then so is the one with the other behind
it. Main statement: `Alphabet.parseInitial_append`.
-/

namespace LSystems

/-! ## Closing parentheses -/

def parentheses : BranchPair Char := ⟨'(', ')'⟩

theorem splitClosing?_eq_some_iff {depth : Nat} {text inside behind : List Char} :
    splitClosing? depth text = some (inside, behind) ↔
      text = inside ++ ')' :: behind ∧ parentheses.depth? depth inside = some 0 := by
  constructor
  · intro split
    refine ⟨splitClosing?_eq split, ?_⟩
    fun_induction splitClosing? depth text generalizing inside with
    | case1 => contradiction
    | case2 depth rest induction =>
        rcases Option.map_eq_some_iff.mp split with ⟨⟨inner, _⟩, isSplit, equal⟩
        cases equal
        exact induction isSplit
    | case3 =>
        cases split
        rfl
    | case4 rest _ depth induction =>
        rcases Option.map_eq_some_iff.mp split with ⟨⟨inner, _⟩, isSplit, equal⟩
        cases equal
        exact induction isSplit
    | case5 depth character rest notOpening notClosing induction =>
        rcases Option.map_eq_some_iff.mp split with ⟨⟨inner, _⟩, isSplit, equal⟩
        cases equal
        have notBracket : parentheses.contains character = false := by
          simp [BranchPair.contains, parentheses, notOpening, notClosing]
        rw [BranchPair.depth?_of_not_contains notBracket]
        exact induction isSplit
  · rintro ⟨rfl, balanced⟩
    fun_induction parentheses.depth? depth inside with
    | case1 =>
        cases balanced
        rfl
    | case2 depth rest induction =>
        change Option.map _ (splitClosing? (depth + 1) (rest ++ ')' :: behind)) = _
        rw [induction balanced]
        rfl
    | case3 => contradiction
    | case4 depth rest positive _ induction =>
        rcases Nat.exists_eq_succ_of_ne_zero positive with ⟨depth, rfl⟩
        have isSplit :
            splitClosing? depth (rest ++ ')' :: behind) = some (rest, behind) :=
          induction balanced
        change Option.map _ (splitClosing? depth (rest ++ ')' :: behind)) = _
        rw [isSplit]
        rfl
    | case5 depth character rest notOpening notClosing induction =>
        have neither : character ≠ '(' ∧ character ≠ ')' := ⟨notOpening, notClosing⟩
        simp [splitClosing?, neither, induction balanced]

/-! ## Grammar -/

def argumentTexts (inside : List Char) : List (List Char) :=
  (Fragment.arguments true ⟨0, inside⟩).map Fragment.text

/-- The text is made of letters, each of them with arguments in parentheses or without
any, and of blanks. -/
inductive Composed : List Char → List (Term (List Char)) → Prop
  | nil : Composed [] []
  | blank {character text terms} : Text.isBlank character = true → Composed text terms →
      Composed (character :: text) terms
  | letter {letter text terms} : isLetterSymbol letter = true → Composed text terms →
      Composed (letter :: text) (⟨letter, []⟩ :: terms)
  | arguments {letter blanks inside text terms} : isLetterSymbol letter = true →
      blanks.all Text.isBlank = true → parentheses.depth? 0 inside = some 0 →
        Composed text terms →
      Composed (letter :: (blanks ++ '(' :: (inside ++ ')' :: text)))
        (⟨letter, argumentTexts inside⟩ :: terms)

def Piece.term (piece : Piece) : Term (List Char) :=
  ⟨piece.letter,
    ((piece.arguments.map (Fragment.arguments true)).getD []).map Fragment.text⟩

theorem map_text_locate (offset : Nat) (parts : List (List Char)) :
    (locate offset parts).map Fragment.text = parts := by
  induction parts generalizing offset with
  | nil => rfl
  | cons part parts induction => rw [locate, List.map_cons, induction]

theorem map_text_arguments (fragment : Fragment) :
    (fragment.arguments true).map Fragment.text = argumentTexts fragment.text := by
  rw [argumentTexts, Fragment.arguments, Fragment.arguments]
  change List.map _ (if fragment.text.all Text.isBlank then [] else _) =
    List.map _ (if fragment.text.all Text.isBlank then [] else _)
  split
  · rfl
  · rw [map_text_locate, map_text_locate]

namespace Composed

variable {front back text : List Char} {first second terms : List (Term (List Char))}

theorem append (composed : Composed front first) (further : Composed back second) :
    Composed (front ++ back) (first ++ second) := by
  induction composed with
  | nil => exact further
  | blank isBlank _ induction => exact .blank isBlank induction
  | letter usable _ induction => exact .letter usable induction
  | arguments usable blank balanced _ induction =>
      simp only [List.cons_append, List.append_assoc]
      exact .arguments usable blank balanced induction

theorem of_dropBlanks (composed : Composed (Text.dropBlanks text) terms) :
    Composed text terms := by
  induction text with
  | nil => exact composed
  | cons head tail induction =>
      rw [Text.dropBlanks, List.dropWhile_cons] at composed
      split at composed
      · next isBlank => exact .blank isBlank (induction composed)
      · exact composed

theorem startsWithLetter (composed : Composed text terms) :
    StartsWithLetter (Text.dropBlanks text) := by
  induction composed with
  | nil => nofun
  | blank isBlank _ induction =>
      rw [Text.dropBlanks, List.dropWhile_cons_of_pos isBlank]
      exact induction
  | letter usable =>
      rw [dropBlanks_cons usable]
      exact startsWithLetter_cons usable _
  | arguments usable =>
      rw [dropBlanks_cons usable]
      exact startsWithLetter_cons usable _

theorem of_cut {offset : Nat} (complete : (cut offset text).2 = none) :
    Composed text ((cut offset text).1.map Piece.term) := by
  fun_induction cut offset text with
  | case1 => exact .nil
  | case2 offset letter rest isBlank induction =>
      exact .blank isBlank (induction complete)
  | case3 => contradiction
  | case4 => contradiction
  | case5 offset letter rest notBlank faultless body isBody _ inside behind isSplit
      _ _ pieces failure
      isCut induction =>
      rw [isCut] at induction
      have usable := isLetterSymbol_iff.mpr ⟨by simpa using notBlank, faultless⟩
      have blank : (rest.takeWhile Text.isBlank).all Text.isBlank = true :=
        List.all_takeWhile
      rcases splitClosing?_eq_some_iff.mp isSplit with ⟨rfl, balanced⟩
      have whole :
          rest = rest.takeWhile Text.isBlank ++ '(' :: (inside ++ ')' :: behind) := by
        rw [← isBody, Text.dropBlanks, List.takeWhile_append_dropWhile]
      have further :=
        Composed.arguments usable blank balanced (induction complete).of_dropBlanks
      rw [← whole, ← map_text_arguments ⟨_, inside⟩] at further
      exact further
  | case6 offset letter rest notBlank faultless _ _ pieces failure isCut induction =>
      rw [isCut] at induction
      have usable := isLetterSymbol_iff.mpr ⟨by simpa using notBlank, faultless⟩
      exact .letter usable (induction complete).of_dropBlanks

theorem exists_cut (composed : Composed text terms) (offset : Nat) :
    ∃ pieces, cut offset text = (pieces, none) ∧ pieces.map Piece.term = terms := by
  rcases exists_cut_dropBlanks offset text with ⟨start, same⟩
  rw [same]
  clear same
  induction composed generalizing start with
  | nil => exact ⟨[], by rw [Text.dropBlanks, List.dropWhile_nil, cut], rfl⟩
  | blank isBlank _ induction =>
      rw [Text.dropBlanks, List.dropWhile_cons_of_pos isBlank]
      exact induction start
  | letter usable composed induction =>
      rcases cut_letter usable start composed.startsWithLetter with ⟨span, stop, isCut⟩
      rcases induction stop with ⟨pieces, areCut, areTerms⟩
      rw [areCut] at isCut
      rw [dropBlanks_cons usable]
      exact ⟨_, isCut, congrArg (_ :: ·) areTerms⟩
  | @arguments letter blanks inside text terms usable blank balanced composed induction =>
      have closed : splitClosing? 0 (inside ++ ')' :: text) = some (inside, text) :=
        splitClosing?_eq_some_iff.mpr ⟨rfl, balanced⟩
      rcases cut_arguments usable start blank closed with ⟨opening, span, stop, isCut⟩
      rcases induction stop with ⟨pieces, areCut, areTerms⟩
      rw [areCut] at isCut
      rw [dropBlanks_cons usable]
      refine ⟨_, isCut, ?_⟩
      rw [List.map_cons, areTerms, ← map_text_arguments ⟨opening, inside⟩]
      rfl

end Composed

/-! ## Emissions -/

def Emission.boundTerm (emission : Emission Char) : Term BoundExpr :=
  ⟨emission.symbol, emission.parameters⟩

structure Compiles (scope : Scope) (written : Term (List Char)) (term : Term BoundExpr) :
    Prop where
  letter : written.letter = term.letter
  arguments : List.Forall₂ (fun text bound => scope.compile text = .ok bound)
    written.arguments term.arguments

section Emissions

variable {scope : Scope} {terms : List (Term BoundExpr)}

theorem exists_ofPiece_iff {piece : Piece} {term : Term BoundExpr} :
    (∃ emission,
      Emission.ofPiece scope piece = .ok emission ∧ emission.boundTerm = term) ↔
      Compiles scope piece.term term := by
  rw [ofPiece_eq]
  constructor
  · rintro ⟨emission, isMeaning, rfl⟩
    rcases bind_eq_ok.mp isMeaning with ⟨parameters, areCompiled, equal⟩
    cases pure_eq_ok.mp equal
    refine ⟨rfl, List.forall₂_map_left_iff.mpr ?_⟩
    exact (forall₂_of_mapM areCompiled).imp fun _ _ => mapError_eq_ok.mp
  · intro compiles
    rcases exists_mapM (List.forall₂_map_left_iff.mp compiles.arguments)
      (fun bound _ argument isCompiled =>
        ⟨bound, mapError_eq_ok.mpr isCompiled, (rfl : bound = bound)⟩) with
      ⟨parameters, areCompiled, equal⟩
    rw [List.forall₂_eq_eq_eq] at equal
    subst equal
    refine ⟨⟨piece.letter, _, piece.span⟩, bind_eq_ok.mpr ⟨_, areCompiled, rfl⟩, ?_⟩
    exact congrArg (Term.mk · _) compiles.letter

/-- A text is read as emissions if it is one of the grammar and its arguments are
compiled. -/
theorem exists_readEmissions_iff {fragment : Fragment} :
    (∃ emissions, (readEmissions scope fragment).outcome = .ok emissions ∧
        emissions.map Emission.boundTerm = terms) ↔
      ∃ written, Composed fragment.text written ∧
        List.Forall₂ (Compiles scope) written terms := by
  constructor
  · rintro ⟨emissions, areRead, rfl⟩
    rcases of_readPieces areRead with ⟨complete, meanings⟩
    refine ⟨_, .of_cut complete, ?_⟩
    rw [List.forall₂_map_left_iff, List.forall₂_map_right_iff]
    exact meanings.imp fun piece emission isMeaning =>
      exists_ofPiece_iff.mp ⟨emission, isMeaning, rfl⟩
  · rintro ⟨written, composed, compiles⟩
    rcases composed.exists_cut fragment.offset with ⟨pieces, isCut, rfl⟩
    rcases exists_mapM (List.forall₂_map_left_iff.mp compiles)
      (fun term _ piece isCompiled => exists_ofPiece_iff.mpr isCompiled) with
      ⟨emissions, areMeanings, areTerms⟩
    refine ⟨emissions, ?_, ?_⟩
    · rw [readEmissions, isCut, outcome_readPieces]
      exact areMeanings
    · rw [← List.forall₂_eq_eq_eq, List.forall₂_map_left_iff]
      exact areTerms

end Emissions

/-! ## Words -/

namespace Word

/-- The cells of one word behind those of another, whose parameters come first in the
block. -/
protected def append (first second : Word) : Word where
  symbols := first.symbols ++ second.symbols
  places := first.places ++ second.places.map (Span.shift · first.block.size)
  block := first.block ++ second.block

instance : Append Word := ⟨Word.append⟩

theorem placesFrom_add (start distance : Nat) (cells : List Cell) :
    placesFrom (start + distance) cells =
      (placesFrom start cells).map (Span.shift · distance) := by
  induction cells generalizing start with
  | nil => rfl
  | cons cell cells induction =>
      rw [placesFrom, placesFrom, List.map_cons, ← induction, Nat.add_right_comm]
      rfl

theorem ofCells_append (front back : List Cell) :
    ofCells (front ++ back) = ofCells front ++ ofCells back := by
  change _ = Word.append (ofCells front) (ofCells back)
  have size : (ofCells front).block.size = (front.flatMap Cell.parameters).length := by
    rw [← Array.length_toList, toList_block_ofCells]
  apply eq_of_toList
  · simp [Word.append]
  · have shifted := placesFrom_add 0 (front.flatMap Cell.parameters).length back
    rw [toList_places_ofCells, placesFrom_append, shifted]
    simp only [Word.append, Array.toList_append, Array.toList_map,
      toList_places_ofCells, size]
  · simp [Word.append]

end Word

def Term.cell (code : Char → Symbol) (term : Term BoundExpr) : Cell :=
  ⟨code term.letter, term.arguments.map (·.evaluate [] [])⟩

theorem ofEmissions_eq (code : Char → Symbol) (emissions : List (Emission Char)) :
    Word.ofEmissions code emissions =
      .ofCells ((emissions.map Emission.boundTerm).map (Term.cell code)) := by
  rw [List.map_map]
  rfl

/-- The text is a balanced row of the terms, in which there are no parameters. -/
structure Initial (branches : BranchPair Char) (text : List Char)
    (terms : List (Term BoundExpr)) : Prop where
  composed :
    ∃ written, Composed text written ∧ List.Forall₂ (Compiles Scope.empty) written terms
  balanced : branches.depth? 0 (terms.map Term.letter) = some 0

theorem Initial.append {branches : BranchPair Char} {front back : List Char}
    {first second : List (Term BoundExpr)} (isFirst : Initial branches front first)
    (isSecond : Initial branches back second) :
    Initial branches (front ++ back) (first ++ second) := by
  rcases isFirst.composed with ⟨_, composed, compiles⟩
  rcases isSecond.composed with ⟨_, further, alsoCompiles⟩
  refine ⟨⟨_, composed.append further, List.rel_append compiles alsoCompiles⟩, ?_⟩
  rw [List.map_append, BranchPair.depth?_append, isFirst.balanced]
  exact isSecond.balanced

namespace Alphabet

variable {alphabet middle final : Alphabet} {branches : BranchPair Char}
    {front back : String}
  {first second : Word}

theorem parseInitial_eq_ok_iff {text : String} {word : Word} :
    alphabet.parseInitial branches text = (.ok word, final) ↔
      ∃ terms, Initial branches text.toList terms ∧
        final = alphabet.internAll (terms.map Term.letter) ∧
        word = .ofCells (terms.map (Term.cell final.code)) := by
  have letters (emissions : List (Emission Char)) :
      (emissions.map Emission.boundTerm).map Term.letter =
        emissions.map Emission.symbol := by
    rw [List.map_map]
    rfl
  constructor
  · intro isRead
    rcases Prod.mk.inj isRead with ⟨isOutcome, rfl⟩
    rcases map_eq_ok.mp isOutcome with ⟨emissions, areRead, rfl⟩
    rcases of_readBalanced areRead with ⟨areEmissions, isBalanced⟩
    refine ⟨emissions.map Emission.boundTerm, ⟨?_, ?_⟩, ?_, ofEmissions_eq _ _⟩
    · exact exists_readEmissions_iff.mp ⟨emissions, areEmissions, rfl⟩
    · rw [letters]
      simpa [Function.comp_def] using checkBalance_eq_ok_iff.mp isBalanced
    · rw [letters, ← letters_readBalanced areRead]
  · rintro ⟨terms, isInitial, rfl, rfl⟩
    have areEmissions : ∃ emissions,
        (readEmissions Scope.empty ⟨0, text.toList⟩).outcome = .ok emissions ∧
          emissions.map Emission.boundTerm = terms :=
      exists_readEmissions_iff.mpr isInitial.composed
    rcases areEmissions with ⟨emissions, areEmissions, rfl⟩
    have isBalanced : checkBalance branches .initialWord []
        (emissions.map fun emission => (emission.symbol, emission.span)) = .ok () := by
      apply checkBalance_eq_ok_iff.mpr
      rw [List.map_map]
      exact letters emissions ▸ isInitial.balanced
    have areRead := outcome_readBalanced areEmissions isBalanced
    rw [letters, ← letters_readBalanced areRead, ← ofEmissions_eq]
    simp only [parseInitial, readWord, take, areRead]
    rfl

/-- If two texts are words to start from, the second one for the alphabet that the first
one leaves, then they are one word when they are written behind one another. -/
theorem parseInitial_append
    (isFirst : alphabet.parseInitial branches front = (.ok first, middle))
    (isSecond : middle.parseInitial branches back = (.ok second, final)) :
    alphabet.parseInitial branches (front ++ back) = (.ok (first ++ second), final) := by
  rcases parseInitial_eq_ok_iff.mp isFirst with ⟨terms, isInitial, rfl, rfl⟩
  rcases parseInitial_eq_ok_iff.mp isSecond with ⟨further, alsoInitial, isFinal, rfl⟩
  have sameFinal : final = alphabet.internAll ((terms ++ further).map Term.letter) := by
    rw [isFinal, List.map_append, internAll, internAll, internAll, List.foldl_append]
  have sameCells : terms.map (Term.cell final.code) =
      terms.map (Term.cell (alphabet.internAll (terms.map Term.letter)).code) := by
    apply List.map_congr_left
    intro term member
    have known : term.letter ∈ (alphabet.internAll (terms.map Term.letter)).letters :=
      mem_internAll_self (List.mem_map_of_mem member)
    rw [Term.cell, Term.cell, isFinal, code_internAll known]
  apply parseInitial_eq_ok_iff.mpr
  refine ⟨terms ++ further, ?_, sameFinal, ?_⟩
  · rw [String.toList_append]
    exact isInitial.append alsoInitial
  · rw [List.map_append, Word.ofCells_append, sameCells]

private theorem exists_word {read : Except Error Word × Alphabet} {symbols : Array Symbol}
    (found : (read.1.map Word.symbols).toOption = some symbols) :
    ∃ word, read = (.ok word, read.2) ∧ word.symbols = symbols := by
  rcases read with ⟨outcome, grown⟩
  cases outcome with
  | error fault => contradiction
  | ok word => exact ⟨word, rfl, Option.some.inj found⟩

set_option maxRecDepth 100000 in
private theorem symbols_of_front :
    (((ofBranches '[' ']').parseInitial ⟨'[', ']'⟩ "A(1, 2)[B] ").1.map
        Word.symbols).toOption =
      some #[2, 0, 3, 1] := by
  decide +kernel

set_option maxRecDepth 100000 in
private theorem symbols_of_back :
    let middle := ((ofBranches '[' ']').parseInitial ⟨'[', ']'⟩ "A(1, 2)[B] ").2
    ((middle.parseInitial ⟨'[', ']'⟩ "  C ((3) + 1)A").1.map Word.symbols).toOption =
        some #[4, 2] ∧
      (middle.parseInitial ⟨'[', ']'⟩ "  C ((3) + 1)A").2.letters =
        ['[', ']', 'A', 'B', 'C'] := by
  decide +kernel

/-- The second text starts with blanks and goes on with a letter, so nothing in it is an
argument of the first one. -/
theorem parseInitial_append_blanks :
    let start := ofBranches '[' ']'
    ∃ first middle second final,
      start.parseInitial ⟨'[', ']'⟩ "A(1, 2)[B] " = (.ok first, middle) ∧
      middle.parseInitial ⟨'[', ']'⟩ "  C ((3) + 1)A" = (.ok second, final) ∧
      start.parseInitial ⟨'[', ']'⟩ ("A(1, 2)[B] " ++ "  C ((3) + 1)A") =
        (.ok (first ++ second), final) ∧
      first.symbols = #[2, 0, 3, 1] ∧ second.symbols = #[4, 2] ∧
      final.letters = ['[', ']', 'A', 'B', 'C'] := by
  intro start
  rcases exists_word symbols_of_front with ⟨first, isFirst, firstSymbols⟩
  rcases exists_word symbols_of_back.1 with ⟨second, isSecond, secondSymbols⟩
  exact ⟨first, _, second, _, isFirst, isSecond, parseInitial_append isFirst isSecond,
    firstSymbols, secondSymbols, symbols_of_back.2⟩

end Alphabet

end LSystems
