import LSystems.Proofs.Balance
import LSystems.Proofs.Derivation.Step
import LSystems.Proofs.Table.Origins

/-!
# Generations that are reached

The rules of a table do not touch brackets and put balanced rows in place of single
symbols, so that brackets stay balanced in every generation, although no step checks
them. Main statement: `validate_of_reached`.
-/

namespace LSystems

/-! ## Rules -/

/-- The rule rewrites no bracket, and what it puts in place of its target is balanced. -/
structure Rule.KeepsBalance (branches : BranchPair Symbol) (rule : Rule) : Prop where
  target : branches.contains rule.target.symbol = false
  replacement : ∀ outcome ∈ rule.outcomes,
    branches.depth? 0 (outcome.replacement.map Emission.symbol) = some 0

theorem Alphabet.keepsBalance_of_compileTable {alphabet final : Alphabet}
    {branches : BranchPair Char} {ignored : SymbolSet} {tolerance : Float}
    {globals texts : List String} {table : RuleTable}
    (accepted : alphabet.compileTable branches ignored tolerance globals texts =
      (.ok table, final)) {rule : Rule} (isRule : rule ∈ table.rules)
    (nonempty : rule.outcomes ≠ []) : rule.KeepsBalance table.settings.branches := by
  rw [branches_of_compileTable accepted]
  constructor
  · rcases exists_makes_of_mem_outcomes accepted isRule (List.head_mem nonempty) with
      ⟨production, isRead, known, makes⟩
    have isLetter : production.target.letter ∈ final.letters := by
      apply known
      apply Production.mem_letters_of_mem_pattern
      exact List.mem_append_right _ (List.mem_cons_self ..)
    rw [makes.target, PatternSymbol.shape, contains_codes branches isLetter]
    exact isRead.bound.target_free
  · intro outcome isOutcome
    rcases exists_makes_of_mem_outcomes accepted isRule isOutcome with
      ⟨production, isRead, known, makes⟩
    have areLetters : ∀ letter ∈ production.replacement.map Emission.symbol,
        letter ∈ final.letters := fun _ member => known _ (List.mem_append_right _ member)
    have balanced := checkBalance_eq_ok_iff.mp isRead.bound.balanced
    rw [List.map_map] at balanced
    rw [makes.replacement, List.map_map]
    have numbered := depth?_codes branches areLetters 0
    rw [List.map_map] at numbered
    exact numbered.trans balanced

/-! ## Steps -/

namespace RuleTable

variable {table : RuleTable} {word : Word} {globals : List Float} {seed : UInt64}
  {step position : Nat}

theorem Becomes.depth?_eq (sound : table.Sound)
    (keeps : ∀ rule ∈ table.rules, rule.KeepsBalance table.settings.branches)
    {cells : List Cell} (becomes : table.Becomes word globals seed step position cells)
    {symbol : Symbol} (isSymbol : word.symbols[position]? = some symbol) (depth : Nat) :
    table.settings.branches.depth? depth (cells.map Cell.symbol) =
      table.settings.branches.depth? depth [symbol] := by
  cases becomes with
  | kept _ alsoSymbol =>
      cases isSymbol.symm.trans alsoSymbol
      rfl
  | @rewritten rule captured outcome found drawn =>
      rcases spec_of_find? sound found with ⟨isRule, isMatch, _⟩
      rcases Option.filter_eq_some_iff.mp isMatch with ⟨isCaptured, _⟩
      have has := (Rule.exists_of_captures? isCaptured).1
      cases isSymbol.symm.trans (Scene.hasShape_iff.mp has).1
      have keep := keeps rule isRule
      have balanced := keep.replacement outcome (List.mem_of_getElem? drawn)
      rw [BranchPair.depth?_of_not_contains keep.target, List.map_map]
      exact BranchPair.depth?_of_balanced balanced depth

theorem BecomeFrom.depth?_eq (sound : table.Sound)
    (keeps : ∀ rule ∈ table.rules, rule.KeepsBalance table.settings.branches)
    {segments : List (List Cell)} (length : segments.length = word.size)
    (become : table.BecomeFrom word globals seed step 0 segments) (depth : Nat) :
    table.settings.branches.depth? depth (segments.flatten.map Cell.symbol) =
      table.settings.branches.depth? depth word.symbols.toList := by
  rw [List.map_flatten]
  apply BranchPair.depth?_flatten
  apply List.forall₂_iff_get.mpr
  refine ⟨by simpa [Word.size] using length.symm, fun index inside alsoInside depth => ?_⟩
  have isSegment :=
    List.getElem?_eq_getElem (by simpa using alsoInside : index < segments.length)
  have becomes := become index _ isSegment
  rw [Nat.zero_add] at becomes
  have isSymbol :=
    Array.getElem?_eq_getElem (by simpa using inside : index < word.symbols.size)
  simpa using becomes.depth?_eq sound keeps isSymbol depth

/-- Whether a step may be cancelled makes no difference once it has not been. -/
theorem outcome_stepWith {batchSize : Nat} {generation next : Generation}
    {isCancelled : Bool} {cancels : Event → Bool}
    (stepped : (table.stepWith batchSize generation globals isCancelled cancels).outcome =
      .ok next) :
    (table.stepWith batchSize generation globals false fun _ => false).outcome =
      .ok next := by
  rcases generation with ⟨word, seed, step⟩
  simp only [stepWith] at stepped ⊢
  split at stepped
  · contradiction
  · next count =>
      rw [if_neg count]
      cases planned : table.plan? batchSize word globals seed step with
      | none => simp [planned] at stepped
      | some batches =>
          simp only [planned] at stepped ⊢
          split at stepped
          · contradiction
          · cases written : (Batch.place batches).word? table word globals with
            | none => simp [written] at stepped
            | some next => simpa [written] using stepped

theorem exists_becomeFrom_of_stepWith (sound : table.Sound) {batchSize : Nat}
    {generation next : Generation} (compact : generation.word.Compact)
    {isCancelled : Bool} {cancels : Event → Bool}
    (stepped : (table.stepWith batchSize generation globals isCancelled cancels).outcome =
      .ok next) :
    ∃ segments, segments.length = generation.word.size ∧
      table.BecomeFrom generation.word globals generation.seed
        generation.step 0 segments ∧
      next.word = .ofCells segments.flatten := by
  have stepped := outcome_stepWith stepped
  have count : globals.length = table.globals.length := by
    by_contra differ
    simp [stepWith, differ] at stepped
  rcases generation with ⟨word, seed, step⟩
  rcases exists_becomeFrom sound with ⟨segments, length, become⟩
  have made := (stepWith_eq sound compact count batchSize length become).2
  cases made.symm.trans stepped
  exact ⟨segments, length, become, rfl⟩

end RuleTable

/-! ## Runs -/

namespace Grammar

/-- Grammars that have been built, and what becomes of them when words are read. -/
inductive Made : Grammar → Prop
  | built {rules names compiler stepping grammar} :
      build rules names compiler stepping = .ok grammar → Made grammar
  | read {grammar} (text : String) : Made grammar → Made (grammar.parseInitial text).2

/-- Generations that a grammar reaches from a text, or from one of the words that may be
given to it as they are, by steps with any values of the globals. Other texts may be
read at any time. -/
inductive Reached (given : Word → Prop) : Grammar → Generation → Prop
  | reset {grammar text seed first} : Made grammar →
      (grammar.reset text seed).1 = .ok first →
        Reached given (grammar.reset text seed).2 first
  | resetWord {grammar word seed first} : Made grammar → given word →
      grammar.resetWord word seed = .ok first → Reached given grammar first
  | read {grammar generation} (text : String) : Reached given grammar generation →
      Reached given (grammar.parseInitial text).2 generation
  | step {grammar generation globals isCancelled cancels next} :
      Reached given grammar generation →
      (grammar.stepWith generation globals isCancelled cancels).outcome = .ok next →
      Reached given grammar next

theorem Reached.run {given : Word → Prop} {grammar : Grammar}
    {generation last : Generation} (reached : grammar.Reached given generation)
    {globals : List Float} {steps : Nat}
    (done : (grammar.run globals steps generation).1 = .ok last) :
    grammar.Reached given last := by
  induction steps generalizing generation with
  | zero =>
      cases done
      exact reached
  | succ steps induction =>
      simp only [Grammar.run, RuleTable.run] at done induction
      split at done
      · contradiction
      · next next stepped => exact induction (reached.step stepped) done

structure Sound (grammar : Grammar) : Prop where
  table : grammar.table.Sound
  keepsBalance : ∀ rule ∈ grammar.table.rules,
    rule.KeepsBalance grammar.table.settings.branches

theorem Made.sound {grammar : Grammar} (made : grammar.Made) : grammar.Sound := by
  induction made with
  | @built rules names compiler stepping grammar built =>
      simp only [build, bind_eq_ok, pure_eq_ok] at built
      rcases built with ⟨_, _, branches, _, ignored, _, table, compiled, _, _, rfl⟩
      have sound := (Alphabet.sound_of_compileTable (Prod.ext compiled rfl)).1
      refine ⟨sound, fun rule isRule => ?_⟩
      exact Alphabet.keepsBalance_of_compileTable (Prod.ext compiled rfl) isRule
        (sound.rule rule isRule).outcomes
  | read text _ sound => exact ⟨sound.table, sound.keepsBalance⟩

theorem Reached.made {given : Word → Prop} {grammar : Grammar} {generation : Generation}
    (reached : grammar.Reached given generation) : grammar.Made := by
  induction reached with
  | @reset grammar text _ _ made _ => exact made.read text
  | resetWord made _ _ => exact made
  | read text _ made => exact made.read text
  | step _ _ made => exact made

theorem resetWord_eq_ok {grammar : Grammar} {word : Word} {seed : UInt64}
    {first : Generation} (done : grammar.resetWord word seed = .ok first) :
    first = ⟨word, seed, 0⟩ ∧
      (BracketTable.ofSymbols grammar.table.settings.branches word.symbols).validate =
        .ok () := by
  simp only [resetWord, bind_eq_ok, pure_eq_ok] at done
  rcases done with ⟨_, valid, rfl⟩
  exact ⟨rfl, valid⟩

theorem reset_eq_ok {grammar : Grammar} {text : String} {seed : UInt64}
    {first : Generation} (done : (grammar.reset text seed).1 = .ok first) :
    ∃ emissions,
      (readBalanced Scope.empty grammar.branches .initialWord ⟨0, text.toList⟩).outcome =
        .ok emissions ∧
      let next := (grammar.parseInitial text).2
      next.resetWord (.ofEmissions next.alphabet.code emissions) seed = .ok first := by
  have parsed : (grammar.parseInitial text).1.bind
      (fun word => (grammar.parseInitial text).2.resetWord word seed) = .ok first := done
  rcases bind_eq_ok.mp parsed with ⟨word, isWord, isFirst⟩
  rcases map_eq_ok.mp isWord with ⟨emissions, areRead, rfl⟩
  exact ⟨emissions, areRead, isFirst⟩

theorem Reached.compact {given : Word → Prop}
    (compact : ∀ word, given word → word.Compact) {grammar : Grammar}
    {generation : Generation} (reached : grammar.Reached given generation) :
    generation.word.Compact := by
  induction reached with
  | reset _ done =>
      rcases reset_eq_ok done with ⟨emissions, _, isFirst⟩
      rw [(resetWord_eq_ok isFirst).1]
      exact Word.compact_ofCells _
  | resetWord _ isGiven done =>
      rw [(resetWord_eq_ok done).1]
      exact compact _ isGiven
  | read _ _ known => exact known
  | step reached stepped known =>
      rcases RuleTable.exists_becomeFrom_of_stepWith reached.made.sound.table
        known stepped with
        ⟨segments, _, _, isNext⟩
      rw [isNext]
      exact Word.compact_ofCells _

theorem Reached.depth?_eq {given : Word → Prop}
    (compact : ∀ word, given word → word.Compact) {grammar : Grammar}
    {generation : Generation} (reached : grammar.Reached given generation) :
    grammar.table.settings.branches.depth? 0 generation.word.symbols.toList = some 0 := by
  induction reached with
  | reset _ done =>
      rcases reset_eq_ok done with ⟨emissions, _, isFirst⟩
      rw [(resetWord_eq_ok isFirst).1]
      exact BracketTable.validate_eq_ok_iff.mp (resetWord_eq_ok isFirst).2
  | resetWord _ _ done =>
      rw [(resetWord_eq_ok done).1]
      exact BracketTable.validate_eq_ok_iff.mp (resetWord_eq_ok done).2
  | read _ _ balanced => exact balanced
  | step reached stepped balanced =>
      -- No step checks brackets; whatever a symbol becomes opens and closes as many as
      -- the symbol.
      have sound := reached.made.sound
      rcases RuleTable.exists_becomeFrom_of_stepWith sound.table (reached.compact compact)
        stepped with ⟨segments, length, become, isNext⟩
      rw [isNext, Word.toList_symbols_ofCells,
        become.depth?_eq sound.table sound.keepsBalance length]
      exact balanced

def runsTo (rules names : List String) (text : String)
    (globals : List Float) (steps : Nat) (test : Grammar → Generation → Bool) : Bool :=
  match build rules names .default .default with
  | .error _ => false
  | .ok grammar =>
    match (grammar.reset text 7).1 with
    | .error _ => false
    | .ok first =>
      match ((grammar.reset text 7).2.run globals steps first).1 with
      | .error _ => false
      | .ok last => test (grammar.reset text 7).2 last

theorem exists_reached {rules names : List String} {text : String} {globals : List Float}
    {steps : Nat} {test : Grammar → Generation → Bool}
    (runs : runsTo rules names text globals steps test = true) (given : Word → Prop) :
    ∃ (grammar : Grammar) (first last : Generation),
      build rules names .default .default = .ok grammar ∧
      (grammar.reset text 7).1 = .ok first ∧
      ((grammar.reset text 7).2.run globals steps first).1 = .ok last ∧
      (grammar.reset text 7).2.Reached given last ∧
      test (grammar.reset text 7).2 last = true := by
  unfold runsTo at runs
  split at runs
  · contradiction
  · next grammar built =>
      split at runs
      · contradiction
      · next first isFirst =>
          split at runs
          · contradiction
          · next last isLast =>
              have reached : (grammar.reset text 7).2.Reached given last :=
                (Reached.reset (.built built) isFirst).run isLast
              exact ⟨grammar, first, last, built, isFirst, isLast, reached, runs⟩

/-- In every generation that a grammar reaches, from a text or from any word whose
parameters lie one behind another, each bracket has a partner. -/
theorem validate_of_reached {grammar : Grammar} {generation : Generation}
    (reached : grammar.Reached Word.Compact generation) :
    (BracketTable.ofSymbols grammar.table.settings.branches
        generation.word.symbols).validate =
      .ok () :=
  BracketTable.validate_eq_ok_iff.mpr (reached.depth?_eq fun _ => id)

set_option maxRecDepth 100000 in
private theorem runsBranching :
    runsTo ["A(x) -> A(x + g)[A(x)]"] ["g"] "A(1)[A(2)]" [1] 2 (fun _ _ => true) =
      true := by
  decide +kernel

/-- Two steps from `A(1)[A(2)]`, where every step opens a branch at each symbol. -/
theorem validate_of_reached_branching :
    ∃ (grammar : Grammar) (first last : Generation),
      build ["A(x) -> A(x + g)[A(x)]"] ["g"] .default .default = .ok grammar ∧
      (grammar.reset "A(1)[A(2)]" 7).1 = .ok first ∧
      ((grammar.reset "A(1)[A(2)]" 7).2.run [1] 2 first).1 = .ok last ∧
      (grammar.reset "A(1)[A(2)]" 7).2.Reached Word.Compact last ∧
      let table := (grammar.reset "A(1)[A(2)]" 7).2.table
      (BracketTable.ofSymbols table.settings.branches last.word.symbols).validate =
        .ok () := by
  rcases exists_reached runsBranching Word.Compact with
    ⟨grammar, first, last, built, isFirst, isLast, reached, _⟩
  exact ⟨grammar, first, last, built, isFirst, isLast, reached,
    validate_of_reached reached⟩

end Grammar

end LSystems
