import LSystems.Proofs.Derivation.Decide
import LSystems.Proofs.Table.Origins
import LSystems.Proofs.Table.Partition

/-!
# The best rule

The rules for a symbol are tried in one order: those with more context symbols first,
and among equals those that are defined earlier. So the first rule that matches at a
position is the best of all rules of the table that match there. Main statement:
`Alphabet.searchRules?_eq_some_iff_of_compileTable`.
-/

namespace LSystems

/-! ## Sorting and searching -/

section Lists

variable {α β : Type} {before : α → α → Prop} {values : List α}

theorem pairwise_mergeSort_of_pairwise {le : α → α → Bool}
    (trans : ∀ first second third, le first second → le second third → le first third)
    (total : ∀ first second, le first second || le second first)
    (ordered : values.Pairwise before) :
    (values.mergeSort le).Pairwise fun first second =>
      le first second = true ∧ (le second first = true → before first second) := by
  induction values with
  | nil => simp
  | cons value rest induction =>
      rcases List.pairwise_cons.mp ordered with ⟨ahead, restOrdered⟩
      rcases List.mergeSort_cons trans total value rest with
        ⟨front, back, whole, parts, below⟩
      have inRest : ∀ other ∈ front ++ back, other ∈ rest := fun other member =>
        List.mem_mergeSort.mp (parts ▸ member)
      have sorted := induction restOrdered
      have wholeSorted := List.pairwise_mergeSort trans total (value :: rest)
      rw [parts] at sorted
      rw [whole] at wholeSorted
      rcases List.pairwise_append.mp sorted with ⟨inFront, inBack, across⟩
      have above : ∀ other ∈ back, le value other = true :=
        fun _ => List.rel_of_pairwise_cons (List.pairwise_append.mp wholeSorted).2.1
      rw [whole, List.pairwise_append, List.pairwise_cons]
      refine ⟨inFront,
        ⟨fun other member => ⟨above other member, fun _ => ?_⟩, inBack⟩, ?_⟩
      · exact ahead other (inRest other (List.mem_append_right front member))
      · intro first isFirst second isSecond
        rcases List.mem_cons.mp isSecond with rfl | isSecond
        · have notBelow := below first isFirst
          have either := total first second
          simp only [Bool.not_eq_true'] at notBelow
          simp only [notBelow, Bool.or_false] at either
          exact ⟨either,
            fun impossible => Bool.noConfusion (notBelow.symm.trans impossible)⟩
        · exact across first isFirst second isSecond

theorem findSome?_eq_some_iff_of_pairwise (search : α → Option β)
    (asymm : ∀ first second, before first second → ¬ before second first)
    (ordered : values.Pairwise before) {best : α} {result : β} :
    values.findSome? (fun value => (search value).map fun result => (value, result)) =
        some (best, result) ↔
      best ∈ values ∧ search best = some result ∧
        ∀ other ∈ values, other ≠ best → (search other).isSome → before best other := by
  induction values with
  | nil => simp
  | cons value rest induction =>
      rcases List.pairwise_cons.mp ordered with ⟨ahead, restOrdered⟩
      rw [List.findSome?_cons]
      cases found : search value with
      | none =>
          rw [Option.map_none]
          dsimp only
          rw [induction restOrdered]
          constructor
          · rintro ⟨isBest, isResult, others⟩
            refine ⟨List.mem_cons_of_mem _ isBest, isResult,
              List.forall_mem_cons.mpr ⟨?_, others⟩⟩
            simp [found]
          · rintro ⟨isBest, isResult, others⟩
            refine ⟨?_, isResult, (List.forall_mem_cons.mp others).2⟩
            rcases List.mem_cons.mp isBest with rfl | isBest
            · cases found.symm.trans isResult
            · exact isBest
      | some first =>
          rw [Option.map_some]
          dsimp only
          rw [Option.some.injEq, Prod.mk.injEq]
          constructor
          · rintro ⟨rfl, rfl⟩
            refine ⟨List.mem_cons_self, found, fun other member different _ => ?_⟩
            exact ahead other ((List.mem_cons.mp member).resolve_left different)
          · rintro ⟨isBest, isResult, others⟩
            rcases List.mem_cons.mp isBest with rfl | isBest
            · exact ⟨rfl, Option.some.inj (found.symm.trans isResult)⟩
            · by_cases same : value = best
              · subst same
                exact ⟨rfl, Option.some.inj (found.symm.trans isResult)⟩
              · have isAhead := others value List.mem_cons_self same (by rw [found]; rfl)
                exact absurd (ahead best isBest) (asymm _ _ isAhead)

end Lists

/-! ## The order of rules -/

namespace Rule

def origin (rule : Rule) : Nat :=
  (rule.outcomes.head?.map Outcome.source).getD 0

/-- The rule has more context symbols, or as many and an earlier origin. -/
def Precedes (rule other : Rule) : Prop :=
  other.specificity < rule.specificity ∨
    other.specificity = rule.specificity ∧ rule.origin < other.origin

instance (rule other : Rule) : Decidable (rule.Precedes other) :=
  inferInstanceAs (Decidable (_ ∨ _))

theorem Precedes.asymm {rule other : Rule} (precedes : rule.Precedes other) :
    ¬ other.Precedes rule := by
  unfold Precedes at *
  omega

end Rule

namespace RuleTable

variable {settings : TableSettings} {globals : List String} {code : Char → Symbol}
  {productions : List Production} {table : RuleTable}

theorem pairwise_origin
    (accepted : ofProductions settings globals code productions = .ok table) :
    table.rules.Pairwise fun earlier later => earlier.origin < later.origin := by
  have ordered := SignatureClass.pairwise_first_ofProductions
    (Production.signature code settings.branches) productions
  rw [(eq_of_ofProductions accepted).1, List.pairwise_map]
  rw [← List.zipIdx_map_fst 0 (SignatureClass.ofProductions _ productions),
    List.pairwise_map] at ordered
  exact ordered

theorem pairwise_ranked
    (accepted : ofProductions settings globals code productions = .ok table) :
    table.ranked.Pairwise Rule.Precedes := by
  rw [(eq_of_ofProductions accepted).2.1, rank]
  apply (pairwise_mergeSort_of_pairwise _ _ (pairwise_origin accepted)).imp
  · intro first second
    simp only [decide_eq_true_eq, Rule.Precedes]
    omega
  · intro first second third
    simp only [decide_eq_true_eq]
    omega
  · intro first second
    simp only [Bool.or_eq_true, decide_eq_true_eq]
    omega

theorem mem_candidates_iff
    (accepted : ofProductions settings globals code productions = .ok table) {rule : Rule}
    {symbol : Symbol} :
    rule ∈ table.candidates symbol ↔
    rule ∈ table.rules ∧ rule.target.symbol = symbol := by
  rw [candidates, List.mem_filter, mem_ranked_iff accepted, decide_eq_true_eq]

theorem origin_le (accepted : ofProductions settings globals code productions = .ok table)
    {rule : Rule} (isRule : rule ∈ table.rules) {outcome : Outcome}
    (isOutcome : outcome ∈ rule.outcomes) : rule.origin ≤ outcome.source := by
  rcases exists_class_of_mem_rules accepted isRule with ⟨group, isClass, _, isGroup⟩
  rw [isGroup] at isOutcome ⊢
  rcases List.mem_map.mp isOutcome with ⟨member, isMember, rfl⟩
  rcases List.mem_cons.mp isMember with rfl | isOther
  · exact Nat.le_refl _
  · have ordered := SignatureClass.pairwise_source_members (List.mem_of_getElem? isClass)
    exact Nat.le_of_lt (List.rel_of_pairwise_cons ordered isOther)

end RuleTable

/-! ## Searching a table -/

theorem Slots.InRange.mono {captured globals more : Nat} {root : Slots}
    (inRange : root.InRange captured globals) (le : globals ≤ more) :
    root.InRange captured more := by
  induction root with
  | literal value => trivial
  | captured place => exact inRange
  | global place => exact Nat.lt_of_lt_of_le inRange le
  | negate operand induction => exact induction inRange
  | combine operator left right first second => exact ⟨first inRange.1, second inRange.2⟩

theorem Rule.symbol?_of_match? {rule : Rule} {scene : Scene}
    {globals captured : List Float} {position : Nat}
    (isMatch : rule.match? scene globals position = some captured) :
    scene.symbol? position = some rule.target.symbol := by
  rcases Option.filter_eq_some_iff.mp isMatch with ⟨isCaptured, _⟩
  unfold captures? at isCaptured
  split at isCaptured
  · next isTarget => exact (Scene.hasShape_iff.mp isTarget).1
  · contradiction

namespace Rule.Sound

variable {rule : Rule} {count : Nat}

theorem mono (sound : rule.Sound count) {more : Nat} (le : count ≤ more) :
    rule.Sound more where
  right := sound.right
  outcomes := sound.outcomes
  condition := fun condition isCondition =>
    (sound.condition condition isCondition).mono le
  replacement := fun outcome isOutcome emission isEmission expr isParameter =>
    (sound.replacement outcome isOutcome emission isEmission expr isParameter).mono le

theorem attempt?_eq_some_true_iff {globals : List Float}
    (sound : rule.Sound globals.length) {scene : Scene} (compact : scene.word.Compact)
    {position : Nat} {buffer captured : List Float} :
    rule.attempt? scene globals position buffer = some (true, captured) ↔
      rule.match? scene globals position = some captured := by
  rw [sound.attempt?_eq compact, match?]
  cases rule.captures? scene position with
  | none => simp
  | some values =>
      simp only [Option.some.injEq, Prod.mk.injEq, Option.filter_some]
      cases rule.admits values globals with
      | true => simp
      | false => simp

end Rule.Sound

theorem searchRules?_eq_some_iff {scene : Scene} (compact : scene.word.Compact)
    {globals : List Float} {position : Nat} {rules : List Rule}
    (sound : ∀ rule ∈ rules, rule.Sound globals.length)
    (ordered : rules.Pairwise Rule.Precedes) (buffer : List Float) :
    (∀ rule captured,
      searchRules? scene globals position rules buffer = some (some rule, captured) ↔
      rule ∈ rules ∧ rule.match? scene globals position = some captured ∧
        ∀ other ∈ rules, other ≠ rule →
          (other.match? scene globals position).isSome → rule.Precedes other) ∧
    ((∃ left, searchRules? scene globals position rules buffer = some (none, left)) ↔
      ∀ rule ∈ rules, rule.match? scene globals position = none) := by
  have search : ∃ stale, searchRules? scene globals position rules buffer = _ :=
    searchRules?_eq compact sound buffer
  rcases search with ⟨stale, searched⟩
  constructor
  · intro rule captured
    rw [← findSome?_eq_some_iff_of_pairwise
      (fun rule => rule.match? scene globals position) (fun _ _ => Rule.Precedes.asymm)
      ordered, searched]
    split
    · next noMatch => simp [noMatch]
    · next first values isFirst => simp [isFirst]
  · rw [searched]
    split
    · next noMatch => simpa using List.findSome?_eq_none_iff.mp noMatch
    · next first values isFirst =>
        rcases List.exists_of_findSome?_eq_some isFirst with ⟨rule, isRule, isMatch⟩
        rcases Option.map_eq_some_iff.mp isMatch with ⟨captured, isMatch, _⟩
        constructor
        · rintro ⟨left, impossible⟩
          cases impossible
        · intro noMatch
          cases (noMatch rule isRule).symm.trans isMatch

/-- The rules that a search does not try are those that cannot match, so what it finds
is the best rule of the whole table. -/
theorem RuleTable.searchRules?_candidates {settings : TableSettings} {names : List String}
    {code : Char → Symbol} {productions : List Production} {table : RuleTable}
    (accepted : ofProductions settings names code productions = .ok table)
    {globals : List Float} (sound : ∀ rule ∈ table.rules, rule.Sound globals.length)
    {scene : Scene} (compact : scene.word.Compact) {position : Nat} {symbol : Symbol}
    (found : scene.symbol? position = some symbol) (buffer : List Float) :
    let search := searchRules? scene globals position (table.candidates symbol) buffer
    (∀ rule captured, search = some (some rule, captured) ↔
      rule ∈ table.rules ∧ rule.match? scene globals position = some captured ∧
        ∀ other ∈ table.rules, other ≠ rule →
          (other.match? scene globals position).isSome → rule.Precedes other) ∧
    ((∃ left, search = some (none, left)) ↔
      ∀ rule ∈ table.rules, rule.match? scene globals position = none) := by
  intro search
  have inTable : ∀ rule ∈ table.candidates symbol, rule ∈ table.rules :=
    fun rule isCandidate => ((mem_candidates_iff accepted).mp isCandidate).1
  have isCandidate : ∀ rule ∈ table.rules, (rule.match? scene globals position).isSome →
      rule ∈ table.candidates symbol := by
    intro rule isRule isMatch
    rcases Option.isSome_iff_exists.mp isMatch with ⟨captured, isMatch⟩
    have stands := Rule.symbol?_of_match? isMatch
    exact (mem_candidates_iff accepted).mpr
      ⟨isRule, Option.some.inj (stands.symm.trans found)⟩
  rcases searchRules?_eq_some_iff compact
    (fun rule member => sound rule (inTable rule member))
    ((pairwise_ranked accepted).filter _) buffer with ⟨best, nothing⟩
  constructor
  · intro rule captured
    apply (best rule captured).trans
    constructor
    · rintro ⟨isBest, isMatch, others⟩
      exact ⟨inTable rule isBest, isMatch, fun other isOther different matchesToo =>
        others other (isCandidate other isOther matchesToo) different matchesToo⟩
    · rintro ⟨isRule, isMatch, others⟩
      exact ⟨isCandidate rule isRule (isMatch ▸ rfl), isMatch,
        fun other isOther => others other (inTable other isOther)⟩
  · apply nothing.trans
    constructor
    · intro noMatch rule isRule
      by_contra isMatch
      exact isMatch
        (noMatch rule (isCandidate rule isRule (Option.isSome_iff_ne_none.mpr isMatch)))
    · exact fun noMatch rule member => noMatch rule (inTable rule member)

namespace Alphabet

variable {alphabet final : Alphabet} {branches : BranchPair Char} {ignored : SymbolSet}
  {tolerance : Float} {globals : List String} {texts : List String} {table : RuleTable}

theorem exists_specificity_eq
    (accepted : alphabet.compileTable branches ignored tolerance globals texts =
      (.ok table, final))
    {rule : Rule} (isRule : rule ∈ table.rules) {outcome : Outcome}
    (isOutcome : outcome ∈ rule.outcomes) :
    ∃ production : Production, production.IsRead globals branches texts outcome.source ∧
      rule.specificity = (production.left ++ production.right).countP fun symbol =>
        !branches.contains symbol.letter := by
  rcases exists_makes_of_mem_outcomes accepted isRule isOutcome with
    ⟨production, isRead, known, makes⟩
  refine ⟨production, isRead, ?_⟩
  have inLeft : production.left.countP (fun symbol => !branches.contains symbol.letter) =
      production.left.length := by
    apply List.countP_eq_length.mpr
    intro symbol member
    rw [isRead.bound.left_free symbol member, Bool.not_false]
  have inRight : rule.right.size =
      production.right.countP fun symbol => !branches.contains symbol.letter := by
    have size : rule.right.size = rule.right.shapes.length := by
      simp [RightContext.size, RightContext.shapes]
    rw [size, makes.right, RightContext.shapes_ofShapes, ← List.countP_eq_length_filter,
      List.countP_map]
    apply List.countP_congr
    intro symbol member
    rw [Function.comp_apply, contains_shape_of_mem_right accepted known member]
  rw [Rule.specificity, List.countP_append, inLeft, inRight, makes.left, List.length_map]

/-- The candidates for a symbol are the rules for it, the better ones first. What a
search at a position of a word finds is the best of all rules of the table that match
there, with the values that it captures, and it finds nothing only if none of them
matches. What has been in the buffer before does not matter. -/
theorem searchRules?_eq_some_iff_of_compileTable
    (accepted : alphabet.compileTable branches ignored tolerance globals texts =
      (.ok table, final)) :
    (∀ symbol,
      (∀ rule, rule ∈ table.candidates symbol ↔
        rule ∈ table.rules ∧ rule.target.symbol = symbol) ∧
      (table.candidates symbol).Nodup ∧
      (table.candidates symbol).Pairwise Rule.Precedes) ∧
    (∀ rule ∈ table.rules, ∀ outcome ∈ rule.outcomes, rule.origin ≤ outcome.source ∧
      ∃ production : Production, production.IsRead globals branches texts outcome.source ∧
        rule.specificity = (production.left ++ production.right).countP fun symbol =>
          !branches.contains symbol.letter) ∧
    ∀ word : Word, word.Compact → ∀ values : List Float, globals.length ≤ values.length →
      ∀ (position : Nat) (symbol : Symbol), word.symbols[position]? = some symbol →
      ∀ buffer scratch : List Float,
      let scene := table.scene word
      let search := searchRules? scene values position (table.candidates symbol) buffer
      let attempt (rule : Rule) := rule.attempt? scene values position scratch
      (∀ rule captured, search = some (some rule, captured) ↔
        rule ∈ table.rules ∧ attempt rule = some (true, captured) ∧
        ∀ other ∈ table.rules, other ≠ rule →
          ∀ left, attempt other = some (true, left) → rule.Precedes other) ∧
      ((∃ left, search = some (none, left)) ↔
        ∀ rule ∈ table.rules, ∀ captured, attempt rule ≠ some (true, captured)) := by
  rcases exists_productions_of_compileTable accepted with ⟨productions, _, _, joined⟩
  refine ⟨fun symbol => ⟨fun rule => RuleTable.mem_candidates_iff joined, ?_, ?_⟩, ?_, ?_⟩
  · apply ((RuleTable.pairwise_ranked joined).filter _).imp
    rintro rule _ precedes rfl
    exact precedes.asymm precedes
  · exact (RuleTable.pairwise_ranked joined).filter _
  · exact fun rule isRule outcome isOutcome =>
      ⟨RuleTable.origin_le joined isRule isOutcome,
        exists_specificity_eq accepted isRule isOutcome⟩
  intro word compact values count position symbol found buffer scratch scene
    search attempt
  rcases sound_of_compileTable accepted with ⟨sound, sameGlobals⟩
  have ruleSound : ∀ rule ∈ table.rules, rule.Sound values.length := fun rule isRule =>
    (sameGlobals ▸ sound.rule rule isRule).mono count
  have sceneCompact : scene.word.Compact := compact
  have attempted : ∀ rule ∈ table.rules, ∀ captured,
      attempt rule = some (true, captured) ↔
        rule.match? scene values position = some captured := fun rule isRule _ =>
    (ruleSound rule isRule).attempt?_eq_some_true_iff sceneCompact
  rcases RuleTable.searchRules?_candidates joined ruleSound sceneCompact found buffer with
    ⟨best, nothing⟩
  constructor
  · intro rule captured
    apply (best rule captured).trans
    apply and_congr_right
    intro isRule
    rw [attempted rule isRule]
    apply and_congr_right
    intro _
    apply forall₂_congr
    intro other isOther
    simp only [attempted other isOther, Option.isSome_iff_exists, forall_exists_index]
  · apply nothing.trans
    apply forall₂_congr
    intro rule isRule
    rw [Option.eq_none_iff_forall_ne_some]
    exact forall_congr' fun captured => (attempted rule isRule captured).not.symm

def competingRules : List String :=
  ["A -> B", "A > C(x) : x > 5 -> D", "A > C(y) -> D(y)", "C < A -> E"]

/-- `CAC(2)`, with the numbers that the letters get. -/
def enclosedWord : Word :=
  .ofCells [⟨4, []⟩, ⟨2, []⟩, ⟨4, [2]⟩]

private def ranksCompeting : Bool :=
  match (ofBranches '[' ']').compileTable ⟨'[', ']'⟩ .empty 0 [] competingRules with
  | (.error _, _) => false
  | (.ok table, _) =>
    match table.rules with
    | [plain, guarded, following, leading] =>
      following.origin = 2 && following.Precedes plain && following.Precedes leading &&
        (following.attempt? (table.scene enclosedWord) [] 1 []).map Prod.fst =
          some true &&
        (guarded.attempt? (table.scene enclosedWord) [] 1 []).map Prod.fst = some false
    | _ => false

set_option maxRecDepth 100000 in
private theorem ranksCompeting_eq : ranksCompeting = true := by
  decide +kernel

/-- Three of the rules match. The one that is found is the earlier of those with a
context, though a rule that is tried before it has left a value behind. -/
theorem searchRules?_eq_some_iff_of_compileTable_competing :
    ∃ (table : RuleTable) (final : Alphabet) (rule : Rule) (captured : List Float),
      (ofBranches '[' ']').compileTable ⟨'[', ']'⟩ .empty 0 [] competingRules =
        (.ok table, final) ∧
      rule ∈ table.rules ∧ rule.origin = 2 ∧ enclosedWord.Compact ∧
      enclosedWord.symbols[1]? = some 2 ∧
      rule.attempt? (table.scene enclosedWord) [] 1 [] = some (true, captured) ∧
      searchRules? (table.scene enclosedWord) [] 1 (table.candidates 2) [7] =
        some (some rule, captured) := by
  have ranks := ranksCompeting_eq
  unfold ranksCompeting at ranks
  split at ranks
  · contradiction
  · next table final compiled =>
      split at ranks
      · next plain guarded following leading rules =>
          simp only [Bool.and_eq_true, decide_eq_true_eq] at ranks
          rcases ranks with ⟨⟨⟨⟨origin, beforePlain⟩, beforeLeading⟩, succeeds⟩, fails⟩
          rcases Option.map_eq_some_iff.mp succeeds with ⟨⟨_, captured⟩, attempted, rfl⟩
          have isRule : following ∈ table.rules := by simp [rules]
          have compact : enclosedWord.Compact := Word.compact_ofCells _
          have found : enclosedWord.symbols[1]? = some 2 := rfl
          have best := (searchRules?_eq_some_iff_of_compileTable compiled).2.2
            enclosedWord compact []
            (Nat.le_refl 0) 1 2 found [7] []
          refine ⟨table, final, following, captured, compiled, isRule, origin,
            compact, found, attempted,
            (best.1 following captured).mpr ⟨isRule, attempted, ?_⟩⟩
          intro other isOther different left isMatch
          simp only [rules, List.mem_cons, List.not_mem_nil, or_false] at isOther
          rcases isOther with rfl | rfl | rfl | rfl
          · exact beforePlain
          · have impossible : some false = some true :=
              fails.symm.trans (congrArg (Option.map Prod.fst) isMatch)
            cases impossible
          · exact absurd rfl different
          · exact beforeLeading
      · contradiction

end Alphabet

end LSystems
