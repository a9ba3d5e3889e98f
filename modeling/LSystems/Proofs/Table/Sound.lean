import LSystems.Derivation.Grammar
import LSystems.Proofs.Context.Embedding
import LSystems.Proofs.Table.Classes
import LSystems.Proofs.Words
import Mathlib.Algebra.GroupWithZero.Nat

/-!
# What rules may rely on

A match captures as many values as the pattern of the rule has parameters, and the
expressions of a table that has been compiled read no others. Main statement:
`Grammar.sound_of_build`.
-/

namespace LSystems

/-! ## Positions with given shapes -/

theorem LeftContext.haveShapes_of_match? {scene : Scene} {context : LeftContext}
    {position : Nat} {matched : List Nat}
    (found : match? scene context position = some matched) :
    scene.HaveShapes context matched := by
  have climbs : ∀ (shapes : List Shape) (position : Nat) (positions : List Nat),
      climb? scene shapes position = some positions →
        scene.HaveShapes shapes positions := by
    intro shapes
    induction shapes with
    | nil =>
        intro position positions climbed
        cases climbed
        exact .nil
    | cons shape further induction =>
        intro position positions climbed
        rcases climb?_cons_eq_some_iff.mp climbed with ⟨parent, rest, _, has, isRest, rfl⟩
        exact .cons has (induction parent rest isRest)
  obtain ⟨positions, climbed, rfl⟩ := Option.map_eq_some_iff.mp found
  have reversed := List.rel_reverse (climbs _ _ _ climbed)
  rwa [List.reverse_reverse] at reversed

theorem RightContext.haveShapes_of_match? {scene : Scene} {tree : ContextTree}
    {position : Nat} {matched : List Nat}
    (found : tree.layout.match? scene position = some matched) :
    scene.HaveShapes tree.layout.shapes matched := by
  rw [match?_layout] at found
  rw [shapes_layout]
  exact tree.haveShapes_of_match? found

theorem Scene.lt_size_of_hasShape {scene : Scene} {shape : Shape} {position : Nat}
    (has : scene.hasShape position shape = true) : position < scene.word.size :=
  lt_size (hasShape_iff.mp has).1

theorem Scene.hasShape_iff_of_compact {scene : Scene} (compact : scene.word.Compact)
    {shape : Shape} {position : Nat} :
    scene.hasShape position shape = true ↔
      scene.symbol? position = some shape.symbol ∧
        (scene.word.parameters position).length = shape.arity := by
  rw [hasShape_iff]
  refine and_congr_right fun isSymbol => ?_
  obtain ⟨_, _, _, _, _, _, arity, count⟩ := compact.at_position (lt_size isSymbol)
  rw [arity, count]

theorem Scene.HaveShapes.parameters {scene : Scene} (compact : scene.word.Compact)
    {shapes : List Shape} {positions : List Nat}
    (shaped : scene.HaveShapes shapes positions) :
    positions.mapM scene.word.parameters? = some (positions.map scene.word.parameters) ∧
      (positions.flatMap scene.word.parameters).length =
        (shapes.map Shape.arity).sum := by
  induction shaped with
  | nil => exact ⟨rfl, rfl⟩
  | @cons shape position shapes positions has _ induction =>
      obtain ⟨_, _, _, _, _, isThere, _⟩ := compact.at_position (lt_size_of_hasShape has)
      have count := ((hasShape_iff_of_compact compact).mp has).2
      refine ⟨?_, ?_⟩
      · simp [isThere, induction.1]
      · simp [count, ← induction.2]

namespace Rule

def arity (rule : Rule) : Nat :=
  ((rule.left ++ rule.target :: rule.right.shapes).map Shape.arity).sum

/-- What a step relies on in a rule: its right context is a tree, it has outcomes, and
it reads no values that its pattern does not capture. -/
structure Sound (rule : Rule) (globalCount : Nat) : Prop where
  right : ∃ tree : ContextTree, rule.right = tree.layout
  outcomes : rule.outcomes ≠ []
  condition : ∀ condition ∈ rule.condition, condition.root.InRange rule.arity globalCount
  replacement : ∀ outcome ∈ rule.outcomes, ∀ emission ∈ outcome.replacement,
    ∀ expr ∈ emission.parameters, expr.root.InRange rule.arity globalCount

theorem Sound.haveShapes {rule : Rule} {globalCount : Nat}
    (sound : rule.Sound globalCount) {scene : Scene} {position : Nat}
    {left right : List Nat} (has : scene.hasShape position rule.target = true)
    (isLeft : LeftContext.match? scene rule.left position = some left)
    (isRight : rule.right.match? scene position = some right) :
    scene.HaveShapes (rule.left ++ rule.target :: rule.right.shapes)
      (left ++ position :: right) := by
  obtain ⟨tree, isLayout⟩ := sound.right
  rw [isLayout] at isRight ⊢
  exact List.rel_append (LeftContext.haveShapes_of_match? isLeft)
    (.cons has (RightContext.haveShapes_of_match? isRight))

theorem choose_lt (sample total : Float) {probabilities : List Float}
    (nonempty : probabilities ≠ []) :
    choose sample total probabilities < probabilities.length := by
  induction probabilities generalizing total with
  | nil => contradiction
  | cons probability rest induction =>
      cases rest with
      | nil => exact Nat.zero_lt_one
      | cons next rest =>
          rw [choose]
          split
          · exact Nat.zero_lt_succ _
          · exact Nat.succ_lt_succ
              (induction (total + probability) (List.cons_ne_nil next rest))
          · exact List.cons_ne_nil next rest

theorem drawAt_eq (rule : Rule) (seed : UInt64) (step position : Nat) :
    rule.drawAt seed step position =
      if 1 < rule.outcomes.length then
        rule.select (Draw.sample seed (UInt64.ofNat step) (UInt64.ofNat position))
      else 0 := by
  simp only [drawAt, isStochastic, decide_eq_true_eq]

theorem drawAt_lt {rule : Rule} (nonempty : rule.outcomes ≠ []) (seed : UInt64)
    (step position : Nat) : rule.drawAt seed step position < rule.outcomes.length := by
  rw [drawAt]
  split
  · have chosen :=
      choose_lt (Draw.sample seed (UInt64.ofNat step) (UInt64.ofNat position)) 0
      (List.map_eq_nil_iff.not.mpr nonempty : rule.outcomes.map Outcome.probability ≠ [])
    rwa [List.length_map] at chosen
  · exact List.length_pos_iff.mpr nonempty

end Rule

/-! ## Compiled tables -/

namespace Production

variable {globals : List String} {branches : BranchPair Char} {production : Production}
  {alphabet : Alphabet}

/-- The symbols of a pattern that stand for positions of a word: brackets stand for
none. -/
def captors (branches : BranchPair Char) (production : Production) : List PatternSymbol :=
  production.pattern.filter fun symbol => !branches.contains symbol.letter

theorem Bound.captors_eq (bound : production.Bound globals branches) :
    production.captors branches = production.left ++ production.target ::
      production.right.filter fun symbol => !branches.contains symbol.letter := by
  have left : production.left.filter (fun symbol => !branches.contains symbol.letter) =
      production.left := by
    apply List.filter_eq_self.mpr
    intro symbol member
    simpa using bound.left_free symbol member
  simp [captors, pattern, left, bound.target_free]

private theorem flatMap_names_filter {symbols : List PatternSymbol}
    (bare : ∀ symbol ∈ symbols, branches.contains symbol.letter = true →
      symbol.names = []) :
    (symbols.filter fun symbol =>
      !branches.contains symbol.letter).flatMap PatternSymbol.names =
      symbols.flatMap PatternSymbol.names := by
  induction symbols with
  | nil => rfl
  | cons symbol rest induction =>
      have parts := List.forall_mem_cons.mp bare
      cases isBranch : branches.contains symbol.letter with
      | true => simpa [isBranch, parts.1 isBranch] using induction parts.2
      | false => simpa [isBranch] using induction parts.2

theorem Bound.names_captors (bound : production.Bound globals branches) :
    (production.captors branches).flatMap PatternSymbol.names = production.captured := by
  rw [bound.captors_eq, bound.captured_eq, pattern, List.flatMap_append,
    List.flatMap_cons, flatMap_names_filter bound.branch_bare, List.flatMap_append,
    List.flatMap_cons]

private theorem map_shape_filter {symbols : List PatternSymbol}
    (known : ∀ symbol ∈ symbols, symbol.letter ∈ alphabet.letters) :
    (symbols.map (PatternSymbol.shape alphabet.code)).filter
        (fun shape => !(alphabet.codes branches).contains shape.symbol) =
      (symbols.filter fun symbol => !branches.contains symbol.letter).map
        (PatternSymbol.shape alphabet.code) := by
  rw [List.filter_map]
  congr 1
  apply List.filter_congr
  intro symbol member
  rw [Function.comp_apply, PatternSymbol.shape,
    Alphabet.contains_codes branches (known _ member)]

theorem Bound.shapes_captors (bound : production.Bound globals branches)
    (known : ∀ symbol ∈ production.right, symbol.letter ∈ alphabet.letters) :
    let signature := production.signature alphabet.code (alphabet.codes branches)
    signature.left ++ signature.target :: signature.right.shapes =
      (production.captors branches).map (PatternSymbol.shape alphabet.code) := by
  simp only [signature, RightContext.shapes_ofShapes]
  rw [map_shape_filter known, bound.captors_eq, List.map_append, List.map_cons]

theorem Bound.length_captured (bound : production.Bound globals branches)
    (known : ∀ symbol ∈ production.right, symbol.letter ∈ alphabet.letters) :
    let signature := production.signature alphabet.code (alphabet.codes branches)
    ((signature.left ++ signature.target :: signature.right.shapes).map Shape.arity).sum =
      production.captured.length := by
  intro signature
  rw [bound.shapes_captors known, ← bound.names_captors,
    List.length_flatMap, List.map_map]
  rfl

end Production

/-- What a step relies on in a table: rules are found under their numbers and are sound.
-/
structure RuleTable.Sound (table : RuleTable) : Prop where
  rule_at : ∀ rule ∈ table.rules, table.rules[rule.id]? = some rule
  ranked : ∀ rule ∈ table.ranked, rule ∈ table.rules
  rule : ∀ rule ∈ table.rules, rule.Sound table.globals.length

theorem SignatureClass.Sound.arity_rule {productions : List Production}
    {group : SignatureClass} {globals : List String} {branches : BranchPair Char}
    {alphabet : Alphabet}
    (sound : group.Sound (Production.signature alphabet.code (alphabet.codes branches))
      productions)
    {member : Member} (isMember : member ∈ group.members)
    (bound : member.production.Bound globals branches)
    (known : ∀ symbol ∈ member.production.right, symbol.letter ∈ alphabet.letters)
    (id : Nat) :
    (group.rule alphabet.code id).arity = member.production.captured.length := by
  rw [← bound.length_captured known, (sound member isMember).2]
  rfl

theorem RuleTable.sound_of_ofProductions {settings : TableSettings}
    {globals : List String} {branches : BranchPair Char} {alphabet : Alphabet}
    {productions : List Production} {table : RuleTable}
    (accepted : ofProductions settings globals alphabet.code productions = .ok table)
    (codes : settings.branches = alphabet.codes branches)
    (bound : ∀ production ∈ productions, production.Bound globals branches)
    (known : ∀ production ∈ productions, ∀ letter ∈ production.letters,
      letter ∈ alphabet.letters) : table.Sound := by
  have sameGlobals := (eq_of_ofProductions accepted).2.2.1
  refine ⟨fun _ isRule => getElem?_rules accepted isRule,
    fun _ isRanked => (mem_ranked_iff accepted).mp isRanked, fun rule isRule => ?_⟩
  obtain ⟨group, _, sound, isGroup⟩ := exists_class_of_mem_rules accepted isRule
  rw [codes] at sound
  have ofMember : ∀ member ∈ group.members, member.production.Bound globals branches ∧
      rule.arity = member.production.captured.length := by
    intro member isMember
    have isProduction := List.mem_of_getElem? (sound member isMember).1
    have memberBound := bound _ isProduction
    have memberKnown :
        ∀ symbol ∈ member.production.right, symbol.letter ∈ alphabet.letters := by
      intro symbol isSymbol
      apply known _ isProduction
      apply Production.mem_letters_of_mem_pattern
      exact List.mem_append_right _ (List.mem_cons_of_mem _ isSymbol)
    exact ⟨memberBound,
      isGroup ▸ sound.arity_rule isMember memberBound memberKnown rule.id⟩
  rw [sameGlobals]
  refine
    { right := ?_
      outcomes := ?_
      condition := fun condition isCondition => ?_
      replacement := fun outcome isOutcome emission isEmission expr isParameter => ?_ }
  · have signature := (sound group.first (List.mem_cons_self ..)).2
    refine ⟨_, Eq.trans ?_ (RightContext.ofShapes_eq_layout (alphabet.codes branches)
      (group.first.production.right.map (PatternSymbol.shape alphabet.code)))⟩
    rw [isGroup, SignatureClass.rule, ← signature]
    rfl
  · rw [isGroup]
    exact List.cons_ne_nil _ _
  · obtain ⟨firstBound, arity⟩ := ofMember group.first (List.mem_cons_self ..)
    rw [isGroup] at isCondition
    rw [arity]
    exact (Scope.bind_spec (firstBound.condition condition isCondition)).2
  · rw [isGroup] at isOutcome
    obtain ⟨member, isMember, rfl⟩ := List.mem_map.mp isOutcome
    obtain ⟨memberBound, arity⟩ := ofMember member isMember
    obtain ⟨written, isWritten, rfl⟩ := List.mem_map.mp isEmission
    rw [arity]
    exact (Scope.bind_spec (memberBound.replacement written isWritten expr isParameter)).2

theorem Alphabet.sound_of_compileTable {alphabet final : Alphabet}
    {branches : BranchPair Char} {ignored : SymbolSet} {tolerance : Float}
    {globals texts : List String} {table : RuleTable}
    (accepted : alphabet.compileTable branches ignored tolerance globals texts =
      (.ok table, final)) : table.Sound ∧ table.globals = globals := by
  obtain ⟨productions, areRead, known, joined⟩ :=
    exists_productions_of_compileTable accepted
  refine ⟨RuleTable.sound_of_ofProductions joined rfl ?_ known,
    (RuleTable.eq_of_ofProductions joined).2.2.1⟩
  intro production member
  obtain ⟨place, inside, rfl⟩ := List.mem_iff_getElem.mp member
  exact Production.bound_of_read (areRead.get (areRead.length_eq ▸ inside) inside)

theorem Grammar.sound_of_build {rules globals : List String} {compiler : CompilerSettings}
    {stepping : SteppingSettings} {grammar : Grammar}
    (built : build rules globals compiler stepping = .ok grammar) :
    grammar.table.Sound ∧ grammar.table.globals = globals := by
  simp only [build, bind_eq_ok, pure_eq_ok] at built
  obtain ⟨_, _, branches, _, ignored, _, table, compiled, _, _, rfl⟩ := built
  exact Alphabet.sound_of_compileTable (Prod.ext compiled rfl)

end LSystems
