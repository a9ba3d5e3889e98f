import LSystems.Proofs.Derivation.Reached
import LSystems.Proofs.Display
import LSystems.Proofs.Production.LettersMet

/-!
# Texts of generations

Every symbol of a generation has a letter, and the letters of a grammar may all be read
as symbols. So the text of a generation without infinities is read as its word, to the
sign of every zero, and the grammar learns nothing from it. Main statement:
`parseInitial_text_of_reached`.
-/

namespace LSystems

/-! ## Letters of a grammar -/

def Alphabet.Names (alphabet : Alphabet) (symbol : Symbol) : Prop :=
  ∃ letter, alphabet.letter? symbol = some letter

theorem Alphabet.Names.internAll {alphabet : Alphabet} {symbol : Symbol}
    (names : alphabet.Names symbol) (letters : List Char) :
    (alphabet.internAll letters).Names symbol :=
  names.imp fun _ found => letter?_internAll found letters

theorem Alphabet.names_code {alphabet : Alphabet} {letter : Char}
    (known : letter ∈ alphabet.letters) : alphabet.Names (alphabet.code letter) :=
  ⟨letter, letter?_code known⟩

namespace Grammar

variable {grammar : Grammar}

structure Lettered (grammar : Grammar) : Prop where
  usable : grammar.alphabet.Usable
  opening : grammar.branches.opening ∈ grammar.alphabet.letters
  closing : grammar.branches.closing ∈ grammar.alphabet.letters
  codes : grammar.table.settings.branches = grammar.alphabet.codes grammar.branches
  replacement : ∀ rule ∈ grammar.table.rules, ∀ outcome ∈ rule.outcomes,
    ∀ emission ∈ outcome.replacement, grammar.alphabet.Names emission.symbol

theorem Lettered.read (lettered : grammar.Lettered) (text : String) :
    (grammar.parseInitial text).2.Lettered := by
  have usable := lettered.usable.take
    (drawnFrom_readBalanced Scope.empty grammar.branches .initialWord
      (.refl ⟨0, text.toList⟩)).clean
  refine ⟨usable, Alphabet.mem_internAll lettered.opening,
    Alphabet.mem_internAll lettered.closing, ?_, ?_⟩
  · refine lettered.codes.trans ?_
    exact congrArg₂ BranchPair.mk (Alphabet.code_internAll lettered.opening _).symm
      (Alphabet.code_internAll lettered.closing _).symm
  · intro rule isRule outcome isOutcome emission isEmission
    exact (lettered.replacement rule isRule outcome isOutcome emission
      isEmission).internAll _

theorem lettered_of_build {rules names : List String} {compiler : CompilerSettings}
    {stepping : SteppingSettings}
    (built : build rules names compiler stepping = .ok grammar) :
    grammar.Lettered := by
  simp only [build, bind_eq_ok, pure_eq_ok] at built
  rcases built with ⟨_, _, branches, areBranches, ignored, _, table, compiled, _, _, rfl⟩
  have usable := (Alphabet.usable_ofBranches areBranches).take
    (drawnFrom_readLetters 0 compiler.ignored.toList).clean
  have members := Alphabet.mem_ofBranches compiler.opening compiler.closing
  cases (Alphabet.of_branchLetters areBranches).2.2
  refine ⟨usable.take (Production.drawnFrom_readAll _ _ 0 rules).clean,
    Alphabet.mem_internAll (Alphabet.mem_internAll members.1),
    Alphabet.mem_internAll (Alphabet.mem_internAll members.2),
    Alphabet.branches_of_compileTable (Prod.ext compiled rfl), ?_⟩
  intro rule isRule outcome isOutcome emission isEmission
  rcases Alphabet.exists_makes_of_mem_outcomes (Prod.ext compiled rfl) isRule
    isOutcome with
    ⟨production, _, known, makes⟩
  rw [makes.replacement] at isEmission
  rcases List.mem_map.mp isEmission with ⟨source, isSource, rfl⟩
  exact Alphabet.names_code (known _ (Production.mem_letters_of_mem_replacement isSource))

theorem Made.lettered (made : grammar.Made) : grammar.Lettered := by
  induction made with
  | built built => exact lettered_of_build built
  | read text _ lettered => exact lettered.read text

/-! ## Letters of a generation -/

theorem names_of_becomes (lettered : grammar.Lettered)
    (sound : grammar.table.Sound) {word : Word}
    (named : ∀ symbol ∈ word.symbols, grammar.alphabet.Names symbol)
    {globals : List Float} {seed : UInt64} {step position : Nat} {cells : List Cell}
    (becomes : grammar.table.Becomes word globals seed step position cells) :
    ∀ cell ∈ cells, grammar.alphabet.Names cell.symbol := by
  cases becomes with
  | kept _ isSymbol =>
      intro cell isCell
      cases List.mem_singleton.mp isCell
      exact named _ (Array.mem_of_getElem? isSymbol)
  | rewritten found drawn =>
      intro cell isCell
      rcases List.mem_map.mp isCell with ⟨emission, isEmission, rfl⟩
      have isRule := (RuleTable.spec_of_find? sound found).1
      exact lettered.replacement _ isRule _ (List.mem_of_getElem? drawn)
        emission isEmission

theorem Reached.exists_cells {generation : Generation}
    (reached : grammar.Reached (fun _ => False) generation) :
    ∃ cells, generation.word = .ofCells cells ∧
      ∀ cell ∈ cells, grammar.alphabet.Names cell.symbol := by
  induction reached with
  | @reset grammar text _ _ _ done =>
      rcases reset_eq_ok done with ⟨emissions, areRead, isFirst⟩
      rw [(resetWord_eq_ok isFirst).1]
      refine ⟨_, rfl, fun cell isCell => ?_⟩
      rcases List.mem_map.mp isCell with ⟨emission, isEmission, rfl⟩
      apply Alphabet.names_code
      apply Alphabet.mem_internAll_self
      rw [letters_readBalanced areRead]
      exact List.mem_map_of_mem isEmission
  | resetWord _ absurd _ => exact absurd.elim
  | read text _ known =>
      rcases known with ⟨cells, isWord, named⟩
      exact ⟨cells, isWord, fun cell isCell => (named cell isCell).internAll _⟩
  | step reached stepped known =>
      rcases known with ⟨cells, isWord, named⟩
      have sound := reached.made.sound
      have compact := reached.compact nofun
      rcases RuleTable.exists_becomeFrom_of_stepWith sound.table compact stepped with
        ⟨segments, _, become, isNext⟩
      refine ⟨_, isNext, fun cell isCell => ?_⟩
      rcases List.mem_flatten.mp isCell with ⟨segment, isSegment, isCell⟩
      rcases List.mem_iff_getElem?.mp isSegment with ⟨index, found⟩
      apply names_of_becomes reached.made.lettered sound.table
        _ (become index segment found) cell
        isCell
      intro symbol isSymbol
      rw [isWord, ← Array.mem_toList_iff, Word.toList_symbols_ofCells] at isSymbol
      rcases List.mem_map.mp isSymbol with ⟨cell, isCell, rfl⟩
      exact named cell isCell

/-- The text of every generation that a grammar reaches from a text is read as the word
of the generation, if none of its parameters is infinite or no number, and the grammar
stays as it is. -/
theorem parseInitial_text_of_reached {generation : Generation}
    (reached : grammar.Reached (fun _ => False) generation)
    (finite : ∀ value ∈ generation.word.block, value.isFinite = true) :
    grammar.parseInitial (grammar.text generation.word) = (.ok generation.word,
      grammar) := by
  have lettered := reached.made.lettered
  have balanced := reached.depth?_eq nofun
  rcases reached.exists_cells with ⟨cells, isWord, named⟩
  rw [isWord, lettered.codes, Word.toList_symbols_ofCells] at balanced
  have legible : ∀ cell ∈ cells, Legible grammar.alphabet cell := by
    intro cell isCell
    rcases named cell isCell with ⟨letter, isLetter⟩
    refine ⟨⟨letter, isLetter, lettered.usable letter (Alphabet.mem_of_letter? isLetter)⟩,
      ?_⟩
    intro value isValue
    apply finite
    rw [isWord, ← Array.mem_toList_iff, Word.toList_block_ofCells]
    exact List.mem_flatMap.mpr ⟨cell, isCell, isValue⟩
  have parsed := Alphabet.parseInitial_text legible balanced
  simp only [Grammar.parseInitial, Grammar.text, isWord, parsed]

set_option maxRecDepth 100000 in
private theorem runsSigned :
    runsTo ["A(x) -> A(-x)[A(x)]"] [] "A(0)" [] 2 (fun grammar last =>
      last.word.block.all Float.isFinite &&
        grammar.text last.word = "A(0)[A(-0)][A(-0)[A(0)]]") = true := by
  decide +kernel

/-- Two steps from `A(0)`, of which each changes the sign of zero. -/
theorem parseInitial_text_of_reached_signed :
    ∃ (grammar : Grammar) (first last : Generation),
      build ["A(x) -> A(-x)[A(x)]"] [] .default .default = .ok grammar ∧
      (grammar.reset "A(0)" 7).1 = .ok first ∧
      ((grammar.reset "A(0)" 7).2.run [] 2 first).1 = .ok last ∧
      let grammar := (grammar.reset "A(0)" 7).2
      grammar.Reached (fun _ => False) last ∧
      (∀ value ∈ last.word.block, value.isFinite = true) ∧
      grammar.text last.word = "A(0)[A(-0)][A(-0)[A(0)]]" ∧
      grammar.parseInitial (grammar.text last.word) = (.ok last.word, grammar) := by
  rcases exists_reached runsSigned _ with
    ⟨grammar, first, last, built, isFirst, isLast, reached, passes⟩
  rw [Bool.and_eq_true, decide_eq_true_eq, Array.all_eq_true_iff_forall_mem] at passes
  exact ⟨grammar, first, last, built, isFirst, isLast, reached, passes.1, passes.2,
    parseInitial_text_of_reached reached passes.1⟩

end Grammar

end LSystems
