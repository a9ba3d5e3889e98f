import LSystems.Proofs.Table.Sound

/-!
# Deciding

With a sound table and a compact word, the first phase of a step reads nothing that is
not there. What an earlier attempt has left in the buffer does not matter, and every
decision comes with the cells that its position becomes.
-/

namespace LSystems

/-! ## Trying rules -/

section Rules

variable {scene : Scene} {rule : Rule} {globals : List Float} {position : Nat}

theorem Rule.exists_of_captures? {values : List Float}
    (found : rule.captures? scene position = some values) :
    scene.hasShape position rule.target = true ∧
      ∃ left right, LeftContext.match? scene rule.left position = some left ∧
        rule.right.match? scene position = some right ∧
        values = (left ++ position :: right).flatMap scene.word.parameters := by
  unfold captures? at found
  split at found
  · next has =>
      split at found
      · contradiction
      · next left isLeft =>
          obtain ⟨right, isRight, rfl⟩ := Option.map_eq_some_iff.mp found
          exact ⟨has, left, right, isLeft, isRight, rfl⟩
  · contradiction

theorem Rule.Sound.length_captures? {globalCount : Nat} (sound : rule.Sound globalCount)
    (compact : scene.word.Compact) {values : List Float}
    (found : rule.captures? scene position = some values) :
    values.length = rule.arity := by
  obtain ⟨has, left, right, isLeft, isRight, rfl⟩ := exists_of_captures? found
  exact ((sound.haveShapes has isLeft isRight).parameters compact).2

/-- An attempt on any buffer says what the pattern and the condition say, and leaves the
captured values behind. -/
theorem Rule.Sound.attempt?_eq (sound : rule.Sound globals.length)
    (compact : scene.word.Compact) (buffer : List Float) :
    rule.attempt? scene globals position buffer =
      match rule.captures? scene position with
      | none => some (false, buffer)
      | some values => some (rule.admits values globals, values) := by
  have admitted : ∀ values, rule.captures? scene position = some values →
      rule.admits? values globals = some (rule.admits values globals) := by
    intro values found
    have inRange := sound.condition
    rw [← sound.length_captures? compact found] at inRange
    cases isCondition : rule.condition with
    | none => simp [admits?, admits, isCondition]
    | some condition =>
        simp [admits?, admits, isCondition, BoundExpr.evaluate,
          Slots.evaluate?_eq (inRange condition isCondition)]
  unfold captures? at admitted
  simp only [attempt?, captures?]
  split
  · next has =>
      simp only [has, if_true] at admitted
      cases isLeft : LeftContext.match? scene rule.left position with
      | none => rfl
      | some left =>
          cases isRight : rule.right.match? scene position with
          | none => rfl
          | some right =>
              simp only [isLeft, isRight, Option.map_some, Option.some.injEq,
                forall_eq'] at admitted
              have rows := (sound.haveShapes has isLeft isRight).parameters compact
              rw [captured, List.flatMap_def] at admitted
              simp only [rows.1, admitted, captured, List.flatMap_def, Option.map_some,
                Option.bind_eq_bind, Option.bind_some, Option.pure_def]
  · rfl

theorem Rule.Sound.captures?_of_attempt? (sound : rule.Sound globals.length)
    (compact : scene.word.Compact) {buffer captured : List Float}
    (matched : rule.attempt? scene globals position buffer = some (true, captured)) :
    rule.captures? scene position = some captured := by
  rw [sound.attempt?_eq compact] at matched
  cases found : rule.captures? scene position with
  | none => simp [found] at matched
  | some values =>
      simp only [found, Option.some.injEq, Prod.mk.injEq] at matched
      rw [matched.2]

theorem searchRules?_eq (compact : scene.word.Compact) {rules : List Rule}
    (sound : ∀ rule ∈ rules, rule.Sound globals.length) (buffer : List Float) :
    ∃ stale, searchRules? scene globals position rules buffer =
      match rules.findSome? fun rule =>
        (rule.match? scene globals position).map fun captured => (rule, captured) with
      | none => some (none, stale)
      | some (rule, captured) => some (some rule, captured) := by
  induction rules generalizing buffer with
  | nil => exact ⟨buffer, rfl⟩
  | cons rule rules induction =>
      obtain ⟨headSound, restSound⟩ := List.forall_mem_cons.mp sound
      rw [searchRules?, headSound.attempt?_eq compact, List.findSome?_cons, Rule.match?]
      cases rule.captures? scene position with
      | none => exact induction restSound buffer
      | some values =>
          cases isAdmitted : rule.admits values globals with
          | false =>
              obtain ⟨stale, found⟩ := induction restSound values
              exact ⟨stale, by simpa [Option.filter, isAdmitted] using found⟩
          | true => exact ⟨buffer, by simp [Option.filter, isAdmitted]⟩

end Rules

/-! ## Parts of a growing pool -/

section Pools

variable {span : Span} {pool : Array Float} {part : List Float}

theorem Span.part?_eq_some_iff :
    span.part? pool = some part ↔
      span.stop ≤ pool.size ∧ (pool.toList.drop span.offset).take span.length = part := by
  simp [part?, Array.toList_extract, List.extract_eq_take_drop, stop]

theorem Span.part?_append (found : span.part? pool = some part) (more : List Float) :
    span.part? (pool ++ more) = some part := by
  obtain ⟨inside, rfl⟩ := part?_eq_some_iff.mp found
  refine part?_eq_some_iff.mpr ⟨?_, ?_⟩
  · rw [Word.size_appendList]
    omega
  · rw [Array.toList_appendList, List.drop_append_of_le_length,
      List.take_append_of_le_length]
    all_goals
      simp only [List.length_drop, Array.length_toList, stop] at *
      omega

theorem Span.part?_append_new (pool : Array Float) (more : List Float) :
    (Span.mk pool.size more.length).part? (pool ++ more) = some more := by
  refine part?_eq_some_iff.mpr ⟨?_, ?_⟩
  · rw [Word.size_appendList]
    exact Nat.le_refl _
  · simp

end Pools

/-! ## What positions become -/

/-- What a position of a word becomes in a step: its own cell if no rule matches there,
or else what an outcome of the rule puts in its place, with the values that the match
has captured. A sample chooses among several outcomes. -/
inductive RuleTable.Becomes (table : RuleTable) (word : Word) (globals : List Float)
    (seed : UInt64) (step position : Nat) : List Cell → Prop
  | kept {symbol} :
      table.find? (table.scene word) globals position = none →
      word.symbols[position]? = some symbol →
      Becomes table word globals seed step position [⟨symbol, word.parameters position⟩]
  | rewritten {rule captured outcome} :
      table.find? (table.scene word) globals position = some (rule, captured) →
      rule.outcomes[if 1 < rule.outcomes.length then
        rule.select (Draw.sample seed (UInt64.ofNat step) (UInt64.ofNat position))
      else 0]? =
          some outcome →
      Becomes table word globals seed step position
        (outcome.replacement.map fun emission => emission.cell captured globals)

structure Decision.Makes (table : RuleTable) (word : Word) (globals : List Float)
    (pool : Array Float) (position : Nat) (decision : Decision) (cells : List Cell) :
    Prop where
  cells? : decision.cells? table word globals pool position = some cells
  consumed : decision.consumed = 1
  symbols : decision.symbols = cells.length
  parameters : decision.parameters = (cells.flatMap Cell.parameters).length

section Positions

variable {table : RuleTable} {word : Word} {globals : List Float} {seed : UInt64}
  {step position : Nat} {cells : List Cell}

theorem Decision.Makes.append {pool : Array Float} {decision : Decision}
    (makes : decision.Makes table word globals pool position cells) (more : List Float) :
    decision.Makes table word globals (pool ++ more) position cells := by
  refine { makes with cells? := ?_ }
  have known := makes.cells?
  unfold Decision.cells? at known ⊢
  cases isAction : decision.action with
  | keep => simpa [isAction] using known
  | absorbed => simpa [isAction] using known
  | rewrite rule outcome captured =>
      simp only [isAction, Option.bind_eq_bind, Option.bind_eq_some_iff] at known ⊢
      obtain ⟨values, found, known⟩ := known
      exact ⟨values, Span.part?_append found more, known⟩

theorem RuleTable.spec_of_find? (sound : table.Sound) {scene : Scene} {rule : Rule}
    {captured : List Float}
    (found : table.find? scene globals position = some (rule, captured)) :
    rule ∈ table.rules ∧ rule.match? scene globals position = some captured ∧
      ∃ symbol, scene.symbol? position = some symbol := by
  unfold find? at found
  split at found
  · contradiction
  · next symbol isSymbol =>
      obtain ⟨candidate, isCandidate, found⟩ := List.exists_of_findSome?_eq_some found
      obtain ⟨values, isMatch, equal⟩ := Option.map_eq_some_iff.mp found
      cases equal
      exact ⟨sound.ranked _ (List.mem_of_mem_filter isCandidate), isMatch,
        symbol, isSymbol⟩

theorem RuleTable.exists_becomes (sound : table.Sound) (inside : position < word.size) :
    ∃ cells, table.Becomes word globals seed step position cells := by
  cases found : table.find? (table.scene word) globals position with
  | none => exact ⟨_, .kept found (Array.getElem?_eq_getElem inside)⟩
  | some result =>
      obtain ⟨rule, captured⟩ := result
      obtain ⟨isRule, _⟩ := spec_of_find? sound found
      have drawn := Rule.drawAt_lt (sound.rule rule isRule).outcomes seed step position
      rw [Rule.drawAt_eq] at drawn
      exact ⟨_, .rewritten found (List.getElem?_eq_getElem drawn)⟩

theorem Emission.mapM_cell {captured : List Float} {replacement : List (Emission Symbol)}
    (inRange : ∀ emission ∈ replacement, ∀ expr ∈ emission.parameters,
      expr.root.InRange captured.length globals.length) :
    (replacement.mapM fun emission => do
      let parameters ← emission.parameters.mapM (·.root.evaluate? captured globals)
      return (⟨emission.symbol, parameters⟩ : Cell)) =
      some (replacement.map fun emission => emission.cell captured globals) := by
  refine mapM_eq_some fun emission isEmission => ?_
  have parameters := mapM_eq_some fun expr isParameter =>
    Slots.evaluate?_eq (inRange emission isEmission expr isParameter)
  rw [parameters]
  rfl

theorem Draft.add?_eq (sound : table.Sound) (compact : word.Compact)
    (count : globals.length = table.globals.length)
    (becomes : table.Becomes word globals seed step position cells) (draft : Draft) :
    ∃ (decision : Decision) (captured buffer : List Float),
      draft.add? table (table.scene word) globals seed step position =
        some ⟨draft.decisions.push decision, draft.pool ++ captured, buffer⟩ ∧
      decision.Makes table word globals (draft.pool ++ captured) position cells := by
  -- Which rule is found does not depend on what an earlier search left in the buffer.
  have searched : ∀ symbol, word.symbols[position]? = some symbol →
      ∃ stale, searchRules? (table.scene word) globals position (table.candidates symbol)
          draft.buffer =
        match table.find? (table.scene word) globals position with
        | none => some (none, stale)
        | some (rule, captured) => some (some rule, captured) := by
    intro symbol isSymbol
    have candidates : ∀ rule ∈ table.candidates symbol, rule.Sound globals.length := by
      intro rule isCandidate
      rw [count]
      exact sound.rule rule (sound.ranked rule (List.mem_of_mem_filter isCandidate))
    have sceneCompact : (table.scene word).word.Compact := compact
    obtain ⟨stale, found⟩ := searchRules?_eq sceneCompact candidates draft.buffer
    refine ⟨stale, ?_⟩
    have seen : (table.scene word).symbol? position = some symbol := isSymbol
    rw [found, RuleTable.find?, seen]
  cases becomes with
  | @kept symbol none isSymbol =>
      obtain ⟨stale, found⟩ := searched symbol isSymbol
      rw [none] at found
      have seen : (table.scene word).symbol? position = some symbol := isSymbol
      obtain ⟨_, place, _, isPlace, _, parameters, _, length⟩ :=
        compact.at_position (Scene.lt_size seen)
      have placed : (table.scene word).word.places[position]? = some place := isPlace
      refine ⟨.kept place.length, [], stale, ?_, ?_⟩
      · simp [add?, seen, found, placed]
      · exact
          { cells? := by simp [Decision.cells?, Decision.kept, isSymbol, parameters]
            consumed := rfl
            symbols := rfl
            parameters := by simp [Decision.kept, length] }
  | @rewritten rule captured outcome found drawn =>
      rw [← Rule.drawAt_eq] at drawn
      obtain ⟨isRule, isMatch, symbol, isSymbol⟩ := RuleTable.spec_of_find? sound found
      obtain ⟨stale, searched⟩ := searched symbol isSymbol
      rw [found] at searched
      obtain ⟨isCaptured, _⟩ := Option.filter_eq_some_iff.mp isMatch
      have ruleSound := sound.rule rule isRule
      have inRange := ruleSound.replacement outcome (List.mem_of_getElem? drawn)
      rw [← ruleSound.length_captures? compact isCaptured, ← count] at inRange
      let decision := Decision.rewritten rule (rule.drawAt seed step position) outcome
        ⟨draft.pool.size, captured.length⟩
      refine ⟨decision, captured, captured, ?_, ?_⟩
      · simp [add?, isSymbol, searched, drawn, decision]
      · exact
          { cells? := by
              simp only [Decision.cells?, decision, Decision.rewritten,
                sound.rule_at rule isRule, Span.part?_append_new, drawn,
                Option.bind_eq_bind, Option.bind_some]
              exact Emission.mapM_cell inRange
            consumed := rfl
            symbols := by simp [decision, Decision.rewritten]
            parameters := by
              simp [decision, Decision.rewritten, Outcome.parameterCount,
                List.length_flatMap, Function.comp_def, Emission.cell] }

/-- What the positions in a row from `start` on become. -/
def RuleTable.BecomeFrom (table : RuleTable) (word : Word) (globals : List Float)
    (seed : UInt64) (step start : Nat) (segments : List (List Cell)) : Prop :=
  ∀ (index : Nat) (cells : List Cell), segments[index]? = some cells →
    table.Becomes word globals seed step (start + index) cells

theorem RuleTable.BecomeFrom.append {start : Nat} {front back : List (List Cell)}
    (become : table.BecomeFrom word globals seed step start (front ++ back)) :
    table.BecomeFrom word globals seed step start front ∧
      table.BecomeFrom word globals seed step (start + front.length) back := by
  constructor
  · intro index cells found
    obtain ⟨inside, _⟩ := List.getElem?_eq_some_iff.mp found
    exact become index cells (by rw [List.getElem?_append_left inside, found])
  · intro index cells found
    rw [Nat.add_assoc]
    refine become _ cells ?_
    rw [List.getElem?_append_right (Nat.le_add_right ..), Nat.add_sub_cancel_left, found]

theorem RuleTable.exists_becomeFrom (sound : table.Sound) :
    ∃ segments, segments.length = word.size ∧
      table.BecomeFrom word globals seed step 0 segments := by
  have each : ∀ position : Fin word.size,
      ∃ cells, table.Becomes word globals seed step position cells :=
    fun position => exists_becomes sound position.isLt
  choose segment becomes using each
  refine ⟨List.ofFn segment, List.length_ofFn, ?_⟩
  intro index cells found
  obtain ⟨inside, rfl⟩ := List.getElem?_eq_some_iff.mp found
  rw [List.getElem_ofFn, Nat.zero_add]
  exact becomes ⟨index, by simpa using inside⟩

/-! ## Batches -/

inductive Decision.MakeFrom (table : RuleTable) (word : Word) (globals : List Float)
    (pool : Array Float) : Nat → List Decision → List (List Cell) → Prop
  | nil {start} : MakeFrom table word globals pool start [] []
  | cons {start decision decisions made segments} :
      decision.Makes table word globals pool start made →
      MakeFrom table word globals pool (start + 1) decisions segments →
      MakeFrom table word globals pool start (decision :: decisions) (made :: segments)

theorem Draft.foldlM_add? (sound : table.Sound) (compact : word.Compact)
    (count : globals.length = table.globals.length) {start : Nat}
    {segments : List (List Cell)}
    (become : table.BecomeFrom word globals seed step start segments) (draft : Draft) :
    ∃ (decisions : List Decision) (captured buffer : List Float),
      (List.range' start segments.length).foldlM
          (add? table (table.scene word) globals seed step) draft =
        some ⟨draft.decisions ++ decisions, draft.pool ++ captured, buffer⟩ ∧
      Decision.MakeFrom table word globals (draft.pool ++ captured) start decisions
        segments := by
  induction segments generalizing start draft with
  | nil => exact ⟨[], [], draft.buffer, by simp, .nil⟩
  | cons cells segments induction =>
      have head : table.Becomes word globals seed step start cells := become 0 cells rfl
      obtain ⟨decision, first, stale, added, makes⟩ :=
        add?_eq sound compact count head draft
      have tail : table.BecomeFrom word globals seed step (start + 1) segments :=
        (RuleTable.BecomeFrom.append (List.singleton_append ▸ become)).2
      obtain ⟨decisions, further, buffer, folded, makeFrom⟩ := induction tail
        ⟨draft.decisions.push decision, draft.pool ++ first, stale⟩
      refine ⟨decision :: decisions, first ++ further, buffer, ?_, ?_⟩
      · rw [List.length_cons, List.range'_succ, List.foldlM_cons, added]
        simpa [Word.appendList_appendList] using folded
      · rw [← Word.appendList_appendList]
        exact .cons (makes.append further) makeFrom

def Batch.Makes (table : RuleTable) (word : Word) (globals : List Float) (batch : Batch)
    (segments : List (List Cell)) : Prop :=
  Decision.MakeFrom table word globals batch.pool batch.start batch.decisions segments

theorem RuleTable.batch?_eq (sound : table.Sound) (compact : word.Compact)
    (count : globals.length = table.globals.length) {start : Nat}
    {segments : List (List Cell)}
    (become : table.BecomeFrom word globals seed step start segments) :
    ∃ batch, table.batch? (table.scene word) globals seed step start segments.length =
        some batch ∧ batch.Makes table word globals segments := by
  obtain ⟨decisions, captured, buffer, folded, makeFrom⟩ :=
    Draft.foldlM_add? sound compact count become .empty
  refine ⟨_, by rw [batch?, folded]; rfl, ?_⟩
  simpa [Batch.Makes, Batch.ofDecisions, Draft.empty] using makeFrom

def Batch.Consecutive : (start stop : Nat) → List (Nat × Nat) → Prop
  | start, stop, [] => start = stop
  | start, stop, (first, length) :: ranges =>
    first = start ∧ Consecutive (start + length) stop ranges

theorem Batch.Consecutive.le {start stop : Nat} {ranges : List (Nat × Nat)}
    (consecutive : Consecutive start stop ranges) : start ≤ stop := by
  induction ranges generalizing start with
  | nil => exact Nat.le_of_eq consecutive
  | cons range ranges induction =>
      obtain ⟨_, further⟩ := consecutive
      exact Nat.le_trans (Nat.le_add_right ..) (induction further)

theorem Batch.consecutive_ranges (batchSize length : Nat) :
    Consecutive 0 length (ranges batchSize length) := by
  have positive : 0 < max 1 batchSize := Nat.le_max_left ..
  rw [ranges]
  generalize max 1 batchSize = size at positive
  have fromIndex :
      ∀ remaining first : Nat, first + remaining = (length + size - 1) / size →
        Consecutive (min (first * size) length) length
          ((List.range' first remaining).map fun index =>
            (index * size, min size (length - index * size))) := by
    intro remaining
    induction remaining with
    | zero =>
        intro first all
        have covered : length ≤ first * size := by
          have whole := Nat.div_add_mod (length + size - 1) size
          have part := Nat.mod_lt (length + size - 1) positive
          rw [← all, Nat.add_zero, Nat.mul_comm] at whole
          omega
        exact Nat.min_eq_right covered
    | succ remaining induction =>
        intro first all
        have inside : first * size < length := by
          have below : first + 1 ≤ (length + size - 1) / size := by omega
          have := (Nat.le_div_iff_mul_le positive).mp below
          rw [Nat.succ_mul] at this
          omega
        have further := induction (first + 1) (by omega)
        rw [Nat.succ_mul] at further
        rw [List.range'_succ, List.map_cons]
        refine ⟨by omega, ?_⟩
        have next : min (first * size) length + min size (length - first * size) =
            min (first * size + size) length := by omega
        rwa [next]
  have whole := fromIndex _ 0 (Nat.zero_add _)
  rwa [Nat.zero_mul, Nat.zero_min, ← List.range_eq_range'] at whole

theorem RuleTable.mapM_batch? (sound : table.Sound) (compact : word.Compact)
    (count : globals.length = table.globals.length) {ranges : List (Nat × Nat)}
    {start stop : Nat} (consecutive : Batch.Consecutive start stop ranges)
    {segments : List (List Cell)}
    (become : table.BecomeFrom word globals seed step start segments)
    (length : start + segments.length = stop) :
    ∃ batches parts, (ranges.mapM fun (first, length) =>
        table.batch? (table.scene word) globals seed step first length) = some batches ∧
      List.Forall₂ (Batch.Makes table word globals) batches parts ∧
      parts.flatten = segments := by
  induction ranges generalizing start segments with
  | nil =>
      have none : segments.length = 0 := by
        have equal : start = stop := consecutive
        omega
      obtain rfl := List.length_eq_zero_iff.mp none
      exact ⟨[], [], rfl, .nil, rfl⟩
  | cons range ranges induction =>
      obtain ⟨first, size⟩ := range
      obtain ⟨rfl, further⟩ := consecutive
      have fits := further.le
      obtain ⟨front, back, rfl, isFront⟩ : ∃ front back, segments = front ++ back ∧
          front.length = size := by
        refine ⟨segments.take size, segments.drop size,
          (List.take_append_drop ..).symm, ?_⟩
        rw [List.length_take]
        omega
      obtain ⟨onFront, onBack⟩ := become.append
      obtain ⟨batch, isBatch, makes⟩ := batch?_eq sound compact count onFront
      rw [isFront] at onBack isBatch
      obtain ⟨batches, parts, areBatches, makeAll, rfl⟩ := induction further onBack (by
        rw [List.length_append] at length
        omega)
      refine ⟨batch :: batches, front :: parts, ?_, .cons makes makeAll, rfl⟩
      simp [isBatch, areBatches]

theorem RuleTable.plan?_eq (sound : table.Sound) (compact : word.Compact)
    (count : globals.length = table.globals.length) (batchSize : Nat)
    {segments : List (List Cell)} (length : segments.length = word.size)
    (become : table.BecomeFrom word globals seed step 0 segments) :
    ∃ batches parts, table.plan? batchSize word globals seed step = some batches ∧
      List.Forall₂ (Batch.Makes table word globals) batches parts ∧
      parts.flatten = segments :=
  mapM_batch? sound compact count (Batch.consecutive_ranges batchSize word.size) become
    (by rw [Nat.zero_add, length])

end Positions

end LSystems
