import LSystems.Proofs.Derivation.Reached
import LSystems.Proofs.Derivation.Uses

/-!
# Seeds

Two steps of one word under different seeds, or with different numbers, use the same
rules at the same positions with the same captured values. Only where a rule with
several outcomes is used may the cells differ that come out of it. Main statement:
`Grammar.seed_reaches_choices`.
-/

namespace LSystems

/-! ## Accounts of steps -/

/-- What a step does at the positions of a word, one after another: the rules that it
uses with what they have captured, and the cells that it puts in place of every
position. -/
structure Account where
  uses : List (Option (Nat × Option (List Float)))
  segments : List (List Cell)

def Batch.segments? (table : RuleTable) (word : Word) (globals : List Float)
    (batch : Batch) : Option (List (List Cell)) :=
  batch.decisions.zipIdx.mapM fun (decision, index) =>
    decision.cells? table word globals batch.pool (batch.start + index)

/-- The account of a step, taken from the batches that it plans. -/
def RuleTable.account? (table : RuleTable) (batchSize : Nat) (word : Word)
    (globals : List Float) (seed : UInt64) (step : Nat) : Option Account := do
  let batches ← table.plan? batchSize word globals seed step
  let parts ← batches.mapM (Batch.segments? table word globals)
  return ⟨batches.flatMap Batch.uses, parts.flatten⟩

section Accounts

variable {table : RuleTable} {word : Word} {globals : List Float}

theorem Decision.MakeFrom.mapM_cells? {pool : Array Float} {start position : Nat}
    {decisions : List Decision} {segments : List (List Cell)}
    (makes : Decision.MakeFrom table word globals pool position decisions segments)
    {index : Nat} (isPosition : start + index = position) :
    (decisions.zipIdx index).mapM (fun (decision, index) =>
      decision.cells? table word globals pool (start + index)) = some segments := by
  induction makes generalizing index with
  | nil => rfl
  | cons head _ induction =>
      have isNext : start + (index + 1) = _ + 1 := congrArg Nat.succ isPosition
      rw [List.zipIdx_cons, List.mapM_cons, induction isNext]
      simp only [isPosition, head.cells?, Option.bind_eq_bind, Option.bind_some,
        Option.pure_def]

theorem Batch.mapM_segments? {batches : List Batch} {parts : List (List (List Cell))}
    (makes : List.Forall₂ (Batch.Makes table word globals) batches parts) :
    batches.mapM (Batch.segments? table word globals) = some parts := by
  induction makes with
  | nil => rfl
  | @cons batch segments batches parts head _ induction =>
      have isHead : batch.segments? table word globals = some segments :=
        Decision.MakeFrom.mapM_cells? head (Nat.add_zero _)
      rw [List.mapM_cons, isHead, induction]
      rfl

namespace RuleTable

variable {seed otherSeed : UInt64} {step otherStep position : Nat}

theorem account?_eq (sound : table.Sound) (compact : word.Compact)
    (count : globals.length = table.globals.length) (batchSize : Nat)
    {segments : List (List Cell)} (length : segments.length = word.size)
    (become : table.BecomeFrom word globals seed step 0 segments) :
    table.account? batchSize word globals seed step =
      some ⟨(List.range word.size).map (table.useAt word globals), segments⟩ := by
  rcases plan?_eq sound compact count batchSize length become with
    ⟨batches, parts, planned, makes, rfl⟩
  rw [account?, planned]
  simp only [Option.bind_eq_bind, Option.bind_some, Batch.mapM_segments? makes,
    Option.pure_def, uses_of_plan? sound compact count planned]

theorem Becomes.eq_or_isStochastic {cells others : List Cell}
    (becomes : table.Becomes word globals seed step position cells)
    (alsoBecomes : table.Becomes word globals otherSeed otherStep position others) :
    cells = others ∨ ∃ rule captured,
      table.find? (table.scene word) globals position = some (rule, captured) ∧
        rule.isStochastic = true := by
  cases becomes with
  | kept none isSymbol =>
      cases alsoBecomes with
      | kept _ alsoSymbol =>
          cases isSymbol.symm.trans alsoSymbol
          exact .inl rfl
      | rewritten found _ => cases none.symm.trans found
  | @rewritten rule captured outcome found drawn =>
      cases alsoBecomes with
      | kept none _ => cases none.symm.trans found
      | rewritten alsoFound alsoDrawn =>
          cases found.symm.trans alsoFound
          cases stochastic : rule.isStochastic with
          | true => exact .inr ⟨rule, captured, found, stochastic⟩
          | false =>
              have single : ¬ 1 < rule.outcomes.length := of_decide_eq_false stochastic
              rw [if_neg single] at drawn alsoDrawn
              cases drawn.symm.trans alsoDrawn
              exact .inl rfl

end RuleTable

end Accounts

/-! ## Tables without choices -/

/-- No rule of the table has more than one outcome. -/
def RuleTable.IsPlain (table : RuleTable) : Prop :=
  ∀ rule ∈ table.rules, rule.isStochastic = false

theorem mem_of_searchRules? {scene : Scene} {globals : List Float} {position : Nat}
    {rules : List Rule} {rule : Rule} {buffer rest : List Float}
    (searched : searchRules? scene globals position rules buffer =
      some (some rule, rest)) :
    rule ∈ rules := by
  induction rules generalizing buffer with
  | nil => cases searched
  | cons head rules induction =>
      rcases Option.bind_eq_some_iff.mp searched with ⟨⟨isMatch, tried⟩, _, further⟩
      dsimp only at further
      split at further
      · cases further
        exact List.mem_cons_self ..
      · exact List.mem_cons_of_mem _ (induction further)

namespace RuleTable

variable {table : RuleTable}

theorem add?_eq_of_isPlain (sound : table.Sound) (plain : table.IsPlain) (scene : Scene)
    (globals : List Float) (seed otherSeed : UInt64) (step otherStep : Nat) :
    Draft.add? table scene globals seed step =
      Draft.add? table scene globals otherSeed otherStep := by
  funext draft position
  unfold Draft.add?
  cases scene.symbol? position with
  | none => simp only [Option.bind_eq_bind, Option.bind_none]
  | some symbol =>
      simp only [Option.bind_eq_bind, Option.bind_some]
      cases searched : searchRules? scene globals position (table.candidates symbol)
          draft.buffer with
      | none => simp only [Option.bind_none]
      | some result =>
          rcases result with ⟨_ | rule, buffer⟩
          · simp only [Option.bind_some]
          · have isCandidate := mem_of_searchRules? searched
            have isRule := sound.ranked rule (List.mem_of_mem_filter isCandidate)
            simp only [Option.bind_some, Rule.drawAt, plain rule isRule,
              Bool.false_eq_true, if_false]

theorem plan?_eq_of_isPlain (sound : table.Sound) (plain : table.IsPlain)
    (batchSize : Nat) (word : Word) (globals : List Float) (seed otherSeed : UInt64)
    (step otherStep : Nat) :
    table.plan? batchSize word globals seed step =
      table.plan? batchSize word globals otherSeed otherStep := by
  simp only [plan?, batch?,
    add?_eq_of_isPlain sound plain _ globals seed otherSeed step otherStep]

theorem word_stepWith_of_isPlain (sound : table.Sound) (plain : table.IsPlain)
    (batchSize : Nat) (globals : List Float) {first second : Generation}
    (same : first.word = second.word) :
    (table.stepWith batchSize first globals false
      fun _ => false).outcome.map Generation.word =
      (table.stepWith batchSize second globals false fun _ => false).outcome.map
        Generation.word := by
  rcases first with ⟨word, seed, step⟩
  rcases second with ⟨_, otherSeed, otherStep⟩
  cases same
  have planned :=
    plan?_eq_of_isPlain sound plain batchSize word globals seed otherSeed step otherStep
  simp only [stepWith, planned]
  split
  · rfl
  · cases table.plan? batchSize word globals otherSeed otherStep with
    | none => rfl
    | some batches =>
        dsimp only
        cases (Batch.place batches).word? table word globals with
        | none => rfl
        | some next => rfl

theorem word_run_of_isPlain (sound : table.Sound) (plain : table.IsPlain)
    (batchSize : Nat) (globals : List Float) (steps : Nat) {first second : Generation}
    (same : first.word = second.word) :
    (table.run batchSize globals steps first).1.map Generation.word =
      (table.run batchSize globals steps second).1.map Generation.word := by
  induction steps generalizing first second with
  | zero => exact congrArg Except.ok same
  | succ steps induction =>
      have stepped := word_stepWith_of_isPlain sound plain batchSize globals same
      rw [run, run]
      cases isFirst :
        (table.stepWith batchSize first globals false fun _ => false).outcome with
      | error =>
          cases isSecond :
            (table.stepWith batchSize second globals false fun _ => false).outcome with
          | error =>
              rw [isFirst, isSecond] at stepped
              cases stepped
              rfl
          | ok =>
              rw [isFirst, isSecond] at stepped
              contradiction
      | ok next =>
          cases isSecond :
            (table.stepWith batchSize second globals false fun _ => false).outcome with
          | error =>
              rw [isFirst, isSecond] at stepped
              contradiction
          | ok other =>
              rw [isFirst, isSecond] at stepped
              exact induction (Except.ok.inj stepped)

end RuleTable

/-! ## Grammars -/

namespace Grammar

def account? (grammar : Grammar) (globals : List Float) (generation : Generation) :
    Option Account :=
  grammar.table.account? grammar.stepping.batchSize generation.word globals
    generation.seed
    generation.step

def wordAfter (grammar : Grammar) (text : String) (seed : UInt64) (globals : List Float)
    (steps : Nat) : Except Error Word := do
  let first ← (grammar.reset text seed).1
  ((grammar.reset text seed).2.run globals steps first).1.map Generation.word

variable {grammar : Grammar} {globals : List Float}

theorem exists_account? (made : grammar.Made) {generation : Generation}
    (compact : generation.word.Compact)
    (count : globals.length = grammar.table.globals.length) :
    ∃ segments, segments.length = generation.word.size ∧
      grammar.table.BecomeFrom generation.word globals generation.seed
        generation.step 0 segments ∧
      grammar.account? globals generation =
        some ⟨(List.range generation.word.size).map
          (grammar.table.useAt generation.word globals), segments⟩ ∧
      grammar.step generation globals =
        .ok ⟨.ofCells segments.flatten, generation.seed, generation.step + 1⟩ := by
  rcases generation with ⟨word, seed, step⟩
  have sound := made.sound.table
  rcases RuleTable.exists_becomeFrom sound with ⟨segments, length, become⟩
  exact ⟨segments, length, become,
    RuleTable.account?_eq sound compact count grammar.stepping.batchSize length become,
    (RuleTable.stepWith_eq sound compact count grammar.stepping.batchSize
      length become).2⟩

theorem wordAfter_eq (made : grammar.Made) (plain : grammar.table.IsPlain) (text : String)
    (seed otherSeed : UInt64) (globals : List Float) (steps : Nat) :
    grammar.wordAfter text seed globals steps =
      grammar.wordAfter text otherSeed globals steps := by
  simp only [wordAfter, reset, resetWord]
  cases (grammar.parseInitial text).1 with
  | error => rfl
  | ok word =>
      simp only [Except.bind, bind, pure, Except.pure]
      cases (BracketTable.ofSymbols (grammar.parseInitial text).2.table.settings.branches
          word.symbols).validate with
      | error => rfl
      | ok =>
          exact RuleTable.word_run_of_isPlain (made.read text).sound.table plain
            grammar.stepping.batchSize globals steps rfl

/-- The seed and the number of a step reach only the choices between the outcomes of a
rule.

Two steps of one compact word, as all words that are made are, with a value for every
global parameter, use the same rules at the same positions, each with the same captured
values. Their words are put together from the segments of the positions, and segments at
one position differ only if a rule with several outcomes is used there. With another
number of values every step ends in the same error. If the grammar has no rule with
several outcomes, runs from one text or from one word have the same word in every
generation, or the same error, whatever their seeds are. -/
theorem seed_reaches_choices (made : grammar.Made) :
    (∀ (first second : Generation) (globals : List Float), first.word = second.word →
      first.word.Compact → globals.length = grammar.table.globals.length →
      ∃ account other : Account,
        grammar.account? globals first = some account ∧
        grammar.account? globals second = some other ∧
        grammar.step first globals =
          .ok ⟨.ofCells account.segments.flatten, first.seed, first.step + 1⟩ ∧
        grammar.step second globals =
          .ok ⟨.ofCells other.segments.flatten, second.seed, second.step + 1⟩ ∧
        account.uses.length = first.word.size ∧
        account.segments.length = first.word.size ∧
        other.segments.length = first.word.size ∧ account.uses = other.uses ∧
        ∀ position : Nat, account.segments[position]? ≠ other.segments[position]? →
          ∃ rule ∈ grammar.table.rules, rule.isStochastic = true ∧
            ∃ captured, account.uses[position]? = some (some (rule.id, some captured))) ∧
    (∀ (generation : Generation) (globals : List Float),
      globals.length ≠ grammar.table.globals.length →
      grammar.step generation globals =
        .error (.parameterCount grammar.table.globals.length globals.length)) ∧
    (grammar.table.IsPlain → ∀ (globals : List Float) (steps : Nat),
      (∀ (text : String) (seed otherSeed : UInt64),
        grammar.wordAfter text seed globals steps =
        grammar.wordAfter text otherSeed globals steps) ∧
      ∀ first second : Generation, first.word = second.word →
        (grammar.run globals steps first).1.map Generation.word =
          (grammar.run globals steps second).1.map Generation.word) := by
  refine ⟨?_, ?_, ?_⟩
  · intro first second globals same compact count
    rcases exists_account? made compact count with
      ⟨segments, length, become, isAccount, stepped⟩
    rcases exists_account? made (same ▸ compact) count with
      ⟨others, otherLength, alsoBecome, isOther, alsoStepped⟩
    rw [← same] at otherLength alsoBecome isOther
    refine ⟨_, _, isAccount, isOther, stepped, alsoStepped, ?_, length,
      otherLength, rfl, ?_⟩
    · rw [List.length_map, List.length_range]
    · intro position differ
      have inside : position < first.word.size := by
        by_contra behind
        apply differ
        have noSegment : segments[position]? = none := List.getElem?_eq_none (by omega)
        have noOther : others[position]? = none := List.getElem?_eq_none (by omega)
        rw [noSegment, noOther]
      have isSegment :=
        List.getElem?_eq_getElem (length ▸ inside : position < segments.length)
      have isOtherSegment :=
        List.getElem?_eq_getElem (otherLength ▸ inside : position < others.length)
      have becomes := become position _ isSegment
      have alsoBecomes := alsoBecome position _ isOtherSegment
      rw [Nat.zero_add] at becomes alsoBecomes
      rcases becomes.eq_or_isStochastic alsoBecomes with
        equal | ⟨rule, captured, found, stochastic⟩
      · rw [isSegment, isOtherSegment, equal] at differ
        exact absurd rfl differ
      · refine ⟨rule, (RuleTable.spec_of_find? made.sound.table found).1,
          stochastic, captured, ?_⟩
        simp [RuleTable.useAt, inside, found]
  · intro generation globals mismatch
    simp only [step, stepWith, RuleTable.stepWith, if_pos mismatch]
  · intro plain globals steps
    refine ⟨fun text seed otherSeed => wordAfter_eq made plain text seed otherSeed
      globals steps, ?_⟩
    exact fun _ _ => RuleTable.word_run_of_isPlain made.sound.table plain
      grammar.stepping.batchSize globals steps

theorem table_of_build {rules names : List String} {compiler : CompilerSettings}
    {stepping : SteppingSettings}
    (built : build rules names compiler stepping = .ok grammar)
    (ordered : grammar.table.rules.Pairwise fun rule later =>
      later.specificity ≤ rule.specificity) :
    { grammar.table with ranked := grammar.table.rules } = grammar.table := by
  simp only [build, bind_eq_ok, pure_eq_ok] at built
  rcases built with
    ⟨_, _, branches, _, ignored, _, ⟨rules, ranked, globals, settings⟩,
      compiled, _, _, rfl⟩
  rcases Alphabet.exists_productions_of_compileTable (Prod.ext compiled rfl) with
    ⟨productions, _, _, joined⟩
  have isRanked : ranked = RuleTable.rank rules :=
    (RuleTable.eq_of_ofProductions joined).2.1
  have inOrder : RuleTable.rank rules = rules :=
    List.mergeSort_of_pairwise (ordered.imp fun le => decide_eq_true le)
  rw [isRanked, inOrder]

def branchingRules : List String :=
  ["P(0.5) | A -> AB", "P(0.5) | A -> B", "B -> A"]

/-- The numbers of cells that a step of `AB` makes of the positions, if rules are tried
in the order of their definition. -/
def widths (grammar : Grammar) (seed : UInt64) : Option (List Nat) :=
  let table : RuleTable := { grammar.table with ranked := grammar.table.rules }
  (table.account? grammar.stepping.batchSize (.ofSymbols [2, 3]) [] seed 0).map
    fun account =>
    account.segments.map List.length

set_option maxRecDepth 100000 in
/-- Two steps of `AB` under seeds that choose differently for `A`. -/
theorem seed_reaches_choices_branching :
    ∃ (grammar : Grammar) (account other : Account),
      build branchingRules [] .default .default = .ok grammar ∧
      grammar.account? [] ⟨.ofSymbols [2, 3], 1, 0⟩ = some account ∧
      grammar.account? [] ⟨.ofSymbols [2, 3], 3, 0⟩ = some other ∧
      account.uses = other.uses ∧ account.segments[0]? ≠ other.segments[0]? ∧
      ∃ rule ∈ grammar.table.rules, rule.isStochastic = true ∧
        ∃ captured, account.uses[0]? = some (some (rule.id, some captured)) := by
  have accepted : (build branchingRules [] .default .default).toOption.any (fun grammar =>
      (grammar.table.rules.Pairwise fun rule later =>
        later.specificity ≤ rule.specificity) ∧
        grammar.widths 1 = some [2, 1] ∧ grammar.widths 3 = some [1, 1]) = true := by
          decide +kernel
  cases built : build branchingRules [] .default .default with
  | error => simp [built, Except.toOption] at accepted
  | ok grammar =>
      simp only [built, Except.toOption, Option.any_some, decide_eq_true_eq] at accepted
      rcases accepted with ⟨ordered, first, second⟩
      have count : ([] : List Float).length = grammar.table.globals.length := by
        rw [(sound_of_build built).2]
        rfl
      rcases (seed_reaches_choices (.built built)).1 ⟨.ofSymbols [2, 3], 1, 0⟩
          ⟨.ofSymbols [2, 3], 3, 0⟩ [] rfl (Word.compact_ofSymbols _) count with
        ⟨account, other, isAccount, isOther, _, _, _, _, _, uses, choices⟩
      have differ : account.segments[0]? ≠ other.segments[0]? := by
        intro same
        have lengths := congrArg (Option.map List.length) same
        rw [← List.getElem?_map, ← List.getElem?_map] at lengths
        simp only [account?] at isAccount isOther
        simp only [widths, table_of_build built ordered, isAccount, isOther,
          Option.map_some, Option.some.injEq] at first second
        rw [first, second] at lengths
        contradiction
      exact ⟨grammar, account, other, rfl, isAccount, isOther, uses, differ,
        choices 0 differ⟩

end Grammar

end LSystems
