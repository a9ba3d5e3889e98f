import LSystems.Proofs.BracketWords
import LSystems.Proofs.Expr.Meaning
import LSystems.Proofs.Production.Sections

/-!
# Well-formed rules

What matching and rewriting take for granted of a rule holds of every rule that has been
read: where branch symbols stand and that they are balanced, which names are captured
and that expressions use no others, and that the symbols of every section cover its
text. Main statement: `Production.wellFormed_of_take`.
-/

namespace LSystems

variable {alphabet : Alphabet} {text : List Char}

/-! ## Covered sections -/

/-- Located symbols cover a fragment of a text: the span of each starts at a letter that
the alphabet gives its number, and the spans lie end to end, from behind the blanks in
front up to the end of the fragment. -/
structure Fragment.CoveredBy (alphabet : Alphabet) (text : List Char)
    (fragment : Fragment) (row : List (Symbol × Span)) : Prop where
  starts : ∀ located ∈ row, 0 < located.2.length ∧ ∃ letter,
    text[located.2.offset]? = some letter ∧ alphabet.symbol? letter = some located.1
  contiguous :
    Word.Contiguous (fragment.offset + (fragment.text.takeWhile Text.isBlank).length)
    (fragment.offset + fragment.text.length) (row.map Prod.snd)

def Fragment.CoveredBy? (alphabet : Alphabet) (text : List Char) :
    Option Fragment → List (Symbol × Span) → Prop
  | some fragment, row => fragment.CoveredBy alphabet text row
  | none, row => row = []

theorem Piece.StandsIn.starts {piece : Piece} (stands : piece.StandsIn ⟨0, text⟩) :
    0 < piece.span.length ∧ text[piece.span.offset]? = some piece.letter := by
  rcases stands.letter with ⟨own, ⟨front, back, isText, starts⟩, length⟩
  dsimp only at isText starts
  rw [Nat.zero_add] at starts
  refine ⟨by omega, ?_⟩
  rw [isText, starts, List.getElem?_append_right (Nat.le_refl _), Nat.sub_self]
  rfl

theorem coveredBy_of_readPieces {α : Type} {meaning : Piece → Except Error α}
    {letter : α → Char} {place : α → Span}
    (keeps : ∀ piece result, meaning piece = .ok result →
      letter result = piece.letter ∧ place result = piece.span)
    {fragment : Fragment} (inside : fragment.PartOf ⟨0, text⟩) {results : List α}
    (done :
      (readPieces meaning (cut fragment.offset fragment.text)).outcome = .ok results)
    (known : ∀ result ∈ results, letter result ∈ alphabet.letters) :
    fragment.CoveredBy alphabet text
      (results.map fun result => (alphabet.code (letter result), place result)) := by
  rcases of_readPieces done with ⟨unfailing, meanings⟩
  constructor
  · intro located member
    rcases List.mem_map.mp member with ⟨result, isResult, rfl⟩
    rcases exists_of_mem_readPieces done isResult with ⟨piece, isPiece, isMeaning⟩
    rcases keeps piece result isMeaning with ⟨isLetter, isPlace⟩
    rcases ((standsIn_of_mem_cut isPiece).mono inside).starts with ⟨positive, isThere⟩
    dsimp only
    rw [isPlace]
    refine ⟨positive, letter result, isLetter ▸ isThere, ?_⟩
    exact (alphabet.letter?_eq_some_iff ..).mp
      (Alphabet.letter?_code (known result isResult))
  · have spans :
        (cut fragment.offset fragment.text).1.map Piece.span = results.map place := by
      rw [← List.forall₂_eq_eq_eq, List.forall₂_map_left_iff, List.forall₂_map_right_iff]
      exact meanings.imp fun piece result isMeaning =>
        (keeps piece result isMeaning).2.symm
    rw [List.map_map]
    have contiguous := contiguous_cut unfailing
    rwa [spans] at contiguous

/-! ## Rules -/

/-- A bound expression uses no names but these, and reads no values but theirs. -/
structure BoundExpr.DeclaredIn (captured globals : List String) (expr : BoundExpr) :
    Prop where
  names : ∀ name ∈ expr.source.names, name ∈ captured ++ globals
  slots : expr.root.InRange captured.length globals.length

theorem BoundExpr.DeclaredIn.of_bind {captured globals : List String} {expr : BoundExpr}
    (isBound : (Scope.mk captured globals).bind expr.source = .ok expr) :
    expr.DeclaredIn captured globals :=
  ⟨Scope.exists_bind_iff.mp ⟨expr, isBound⟩, (Scope.bind_spec isBound).2⟩

def PatternSymbol.numbered (alphabet : Alphabet) (symbol : PatternSymbol) :
    Symbol × Span :=
  (alphabet.code symbol.letter, symbol.span)

def Emission.numbered (alphabet : Alphabet) (emission : Emission Char) : Symbol × Span :=
  (alphabet.code emission.symbol, emission.span)

namespace Production

/-- What a rule promises to those who match and rewrite with it. -/
structure WellFormed (alphabet : Alphabet) (globals : List String)
    (branches : BranchPair Symbol) (production : Production) : Prop where
  target_free : branches.contains (alphabet.code production.target.letter) = false
  left_free :
    ∀ symbol ∈ production.left, branches.contains (alphabet.code symbol.letter) = false
  branch_bare : ∀ symbol ∈ production.left ++ production.right,
    branches.contains (alphabet.code symbol.letter) = true → symbol.names = []
  right_balanced :
    branches.Balanced (production.right.map fun symbol => alphabet.code symbol.letter)
  replacement_balanced :
    branches.Balanced (production.replacement.map fun emission =>
      alphabet.code emission.symbol)
  captured_eq : production.captured = production.left.flatMap PatternSymbol.names ++
    (production.target.names ++ production.right.flatMap PatternSymbol.names)
  captured_nodup : production.captured.Nodup
  captured_disjoint : production.captured.Disjoint globals
  condition : ∀ expr ∈ production.condition, expr.DeclaredIn production.captured globals
  replacement : ∀ emission ∈ production.replacement, ∀ expr ∈ emission.parameters,
    expr.DeclaredIn production.captured globals

/-- The text is cut into the sections of a rule, and the symbols of the rule cover them.
-/
structure Covers (alphabet : Alphabet) (text lead : List Char) (outline : Outline)
    (pattern : ContextOutline) (production : Production) : Prop where
  outline_eq : Outline.ofText? text = some outline
  cuts : outline.Cuts lead text
  pattern_eq : ContextOutline.ofFragment outline.context = .ok pattern
  pattern_cuts : pattern.Cuts outline.context
  left : Fragment.CoveredBy? alphabet text pattern.left
    (production.left.map (PatternSymbol.numbered alphabet))
  target : pattern.target.CoveredBy alphabet text [production.target.numbered alphabet]
  right : Fragment.CoveredBy? alphabet text pattern.right
    (production.right.map (PatternSymbol.numbered alphabet))
  replacement : outline.replacement.CoveredBy alphabet text
    (production.replacement.map (Emission.numbered alphabet))

variable {globals : List String} {branches : BranchPair Char} {production : Production}

theorem coveredBy_of_readPattern {fragment : Fragment}
    (inside : fragment.PartOf ⟨0, text⟩) {pattern : List PatternSymbol}
    (done : (readPattern fragment).outcome = .ok pattern)
    (known : ∀ symbol ∈ pattern, symbol.letter ∈ alphabet.letters) :
    fragment.CoveredBy alphabet text (pattern.map (PatternSymbol.numbered alphabet)) :=
  coveredBy_of_readPieces
    (fun _ _ isSymbol =>
      ⟨letter_of_patternSymbol isSymbol, span_of_patternSymbol isSymbol⟩)
    inside done known

theorem coveredBy?_of_readPattern? {found : Option Fragment}
    (inside : ∀ part ∈ found, part.PartOf ⟨0, text⟩) {pattern : List PatternSymbol}
    (done : (readPattern? found).outcome = .ok pattern)
    (known : ∀ symbol ∈ pattern, symbol.letter ∈ alphabet.letters) :
    Fragment.CoveredBy? alphabet text found
      (pattern.map (PatternSymbol.numbered alphabet)) := by
  cases found with
  | none =>
      cases done
      rfl
  | some part => exact coveredBy_of_readPattern (inside part rfl) done known

theorem coveredBy_of_readEmissions {scope : Scope} {fragment : Fragment}
    (inside : fragment.PartOf ⟨0, text⟩) {emissions : List (Emission Char)}
    (done : (readEmissions scope fragment).outcome = .ok emissions)
    (known : ∀ emission ∈ emissions, emission.symbol ∈ alphabet.letters) :
    fragment.CoveredBy alphabet text (emissions.map (Emission.numbered alphabet)) :=
  coveredBy_of_readPieces
    (fun _ _ isEmission =>
      ⟨Emission.symbol_of_ofPiece isEmission, Emission.span_of_ofPiece isEmission⟩)
    inside done known

theorem exists_covers_of_read {text : String}
    (done : (read globals branches text).outcome = .ok production)
    (known : ∀ letter ∈ production.letters, letter ∈ alphabet.letters) :
    ∃ lead outline pattern, production.Covers alphabet text.toList lead
      outline pattern := by
  have knownPattern := fun symbol member =>
    known (PatternSymbol.letter symbol) (mem_letters_of_mem_pattern member)
  have knownReplacement := fun emission member =>
    known (Emission.symbol emission) (mem_letters_of_mem_replacement member)
  simp only [read, readContext, Reading.outcome_bind, Reading.outcome_lift,
    Reading.outcome_pure, bind_eq_ok] at done
  rcases done with
    ⟨outline, isOutline, _, _, ⟨left, target, right⟩,
      ⟨pattern, isPattern, left, isLeft, targets, areTargets, right, isRight, target,
        isTarget, _, _, isContext⟩, _, _, scope, _,
    _, _, replacement, isReplacement, isProduction⟩
  cases isContext
  cases isProduction
  cases eq_of_singleTarget isTarget
  have isOutline := Outline.ofText?_eq_some isOutline
  rcases Outline.cuts_of_ofText? isOutline with ⟨lead, cuts⟩
  have patternCuts := ContextOutline.cuts_of_ofFragment isPattern
  -- sections of the pattern are cut out of a section of the text
  have context := cuts.context_partOf
  refine ⟨lead, outline, pattern, isOutline, cuts, isPattern, patternCuts, ?_, ?_, ?_, ?_⟩
  · refine coveredBy?_of_readPattern? ?_ isLeft fun symbol member => ?_
    · exact fun part isPart => (patternCuts.left_partOf part isPart).trans context
    · exact knownPattern symbol (List.mem_append_left _ member)
  · refine coveredBy_of_readPattern (patternCuts.target_partOf.trans context)
      areTargets ?_
    refine List.forall_mem_singleton.mpr (knownPattern target ?_)
    exact List.mem_append_right _ List.mem_cons_self
  · refine coveredBy?_of_readPattern? ?_ isRight fun symbol member => ?_
    · exact fun part isPart => (patternCuts.right_partOf part isPart).trans context
    · exact knownPattern symbol (List.mem_append_right _ (List.mem_cons_of_mem _ member))
  · exact coveredBy_of_readEmissions cuts.replacement_partOf
      (of_readBalanced isReplacement).1
      knownReplacement

theorem wellFormed_of_read {text : String}
    (done : (read globals branches text).outcome = .ok production)
    (known : ∀ letter ∈ production.letters, letter ∈ alphabet.letters) :
    production.WellFormed alphabet globals (alphabet.codes branches) := by
  have bound := bound_of_read done
  rcases (parts_of_read done).context with ⟨_, isContext⟩
  have ⟨_, _, _, balanced⟩ := of_checkBranches (checkBranches_of_readContext isContext)
  -- the check was made on letters; by their numbers the same symbols are branches
  have isBranch : ∀ symbol ∈ production.pattern,
      (alphabet.codes branches).contains (alphabet.code symbol.letter) =
        branches.contains symbol.letter := fun symbol member =>
    Alphabet.contains_codes branches (known _ (mem_letters_of_mem_pattern member))
  have inLeft : ∀ symbol ∈ production.left, symbol ∈ production.pattern := fun symbol =>
    List.mem_append_left _
  have isTarget : production.target ∈ production.pattern :=
    List.mem_append_right _ List.mem_cons_self
  have inRight : ∀ symbol ∈ production.right, symbol ∈ production.pattern :=
    fun symbol member =>
    List.mem_append_right _ (List.mem_cons_of_mem _ member)
  have rightKnown : ∀ located ∈ production.right.map fun symbol =>
      (symbol.letter, symbol.span),
      located.1 ∈ alphabet.letters := List.forall_mem_map.mpr fun symbol member =>
    known _ (mem_letters_of_mem_pattern (inRight symbol member))
  have replacementKnown :
      ∀ located ∈ production.replacement.map fun emission =>
        (emission.symbol, emission.span),
        located.1 ∈ alphabet.letters := List.forall_mem_map.mpr fun emission member =>
    known _ (mem_letters_of_mem_replacement member)
  constructor
  · rw [isBranch _ isTarget]
    exact bound.target_free
  · intro symbol member
    rw [isBranch symbol (inLeft symbol member)]
    exact bound.left_free symbol member
  · intro symbol member
    rcases List.mem_append.mp member with member | member
    · rw [isBranch symbol (inLeft symbol member), bound.left_free symbol member]
      exact nofun
    · rw [isBranch symbol (inRight symbol member)]
      exact bound.branch_bare symbol member
  · have codes := (Alphabet.checkBalance_eq_ok_iff_balanced rightKnown).mp balanced
    rwa [List.map_map] at codes
  · have codes :=
      (Alphabet.checkBalance_eq_ok_iff_balanced replacementKnown).mp bound.balanced
    rwa [List.map_map] at codes
  · rw [bound.captured_eq, pattern, List.flatMap_append, List.flatMap_cons]
  · exact (List.nodup_append.mp bound.names_nodup).1
  · exact List.disjoint_of_nodup_append bound.names_nodup
  · exact fun expr isCondition => .of_bind (bound.condition expr isCondition)
  · exact fun emission isEmission expr isParameter =>
      .of_bind (bound.replacement emission isEmission expr isParameter)

/-- Every rule that is read is well-formed, and its symbols cover the sections of its
text, by the numbers that its letters have when it has been read. -/
theorem wellFormed_of_take {final : Alphabet} {text : String}
    (accepted : alphabet.take (read globals branches text) = (.ok production, final)) :
    production.WellFormed final globals (final.codes branches) ∧
      ∃ lead outline pattern, production.Covers final text.toList lead
        outline pattern := by
  have done := congrArg Prod.fst accepted
  have isFinal : alphabet.internAll (read globals branches text).letters = final :=
    congrArg Prod.snd accepted
  have known : ∀ letter ∈ production.letters, letter ∈ final.letters := by
    intro letter member
    rw [← letters_read done] at member
    rw [← isFinal]
    exact Alphabet.mem_internAll_self member
  exact ⟨wellFormed_of_read done known, exists_covers_of_read done known⟩

def completeText : String :=
  "P(0.5) | A(x) < B(y) >  [C] : x > g -> D(x)[E]"

private def readsComplete : Bool :=
  match (Alphabet.ofBranches '[' ']').take (read ["g"] ⟨'[', ']'⟩ completeText) with
  | (.error _, _) => false
  | (.ok production, final) =>
    production.captured = ["x", "y"] ∧ final.codes ⟨'[', ']'⟩ = ⟨0, 1⟩ ∧
      production.right.map (PatternSymbol.numbered final) =
        [(0, ⟨24, 1⟩), (4, ⟨25, 1⟩), (1, ⟨26, 2⟩)]

set_option maxRecDepth 100000 in
private theorem readsComplete_eq : readsComplete = true := by
  decide +kernel

/-- A rule with all of its sections, and with brackets in its right context. -/
theorem wellFormed_of_take_complete :
    ∃ production final,
      (Alphabet.ofBranches '[' ']').take (read ["g"] ⟨'[', ']'⟩ completeText) =
        (.ok production, final) ∧
      production.captured = ["x", "y"] ∧
      production.right.map (PatternSymbol.numbered final) =
        [(0, ⟨24, 1⟩), (4, ⟨25, 1⟩), (1, ⟨26, 2⟩)] ∧
      production.WellFormed final ["g"] ⟨0, 1⟩ ∧
      ∃ lead outline pattern,
        production.Covers final completeText.toList lead outline pattern := by
  have reads := readsComplete_eq
  unfold readsComplete at reads
  split at reads
  · contradiction
  · next production final accepted =>
      rcases of_decide_eq_true reads with ⟨captured, codes, right⟩
      have promises := wellFormed_of_take accepted
      rw [codes] at promises
      exact ⟨production, final, accepted, captured, right, promises⟩

end Production

end LSystems
