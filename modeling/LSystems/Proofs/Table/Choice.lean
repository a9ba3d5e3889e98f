import LSystems.Proofs.Decimal.Zeros
import LSystems.Proofs.Derivation.Reached
import LSystems.Proofs.Table.Partition

/-!
# Choosing an outcome

A sample chooses the first outcome at which the sum of the probabilities reaches it, and
the last if no sum does. A probability of zero does not take a sum past a sample that
the sum before it did not reach. So an outcome without weight is only chosen at either
end: the first by a sample of zero, the last by a sample that is beyond all sums. Main
statement: `Grammar.select_pos_iff_of_build`.
-/

namespace LSystems

namespace Rule

open Decimal

variable {sample total : Float} {weights : List Float}

theorem choose_cons_cons (weight next : Float) (rest : List Float) :
    choose sample total (weight :: next :: rest) =
      if sample ≤ total + weight then 0
      else choose sample (total + weight) (next :: rest) + 1 := by
  rw [choose]
  exact List.cons_ne_nil next rest

theorem choose_pos_iff (notReached : ¬ sample ≤ total) (nonempty : weights ≠ [])
    (notNegative : ∀ weight ∈ weights, 0 ≤ weight) :
    ∃ weight, weights[choose sample total weights]? = some weight ∧
      (0 < weight ↔ (∃ count, sample ≤ (weights.take count).foldl (· + ·) total) ∨
        ∃ last ∈ weights.getLast?, 0 < last) := by
  induction weights generalizing total with
  | nil => contradiction
  | cons weight rest induction =>
      rcases List.forall_mem_cons.mp notNegative with ⟨isWeight, restNotNegative⟩
      -- A weight of zero would leave the total where it was, still short of the sample.
      have positive : sample ≤ total + weight → 0 < weight := by
        intro reached
        apply Decidable.byContradiction
        intro notPositive
        exact notReached ((le_add_iff_of_zero isWeight notPositive).mp reached)
      cases rest with
      | nil =>
          refine ⟨weight, rfl, fun isPositive => .inr ⟨weight, rfl, isPositive⟩, ?_⟩
          rintro (⟨count, reached⟩ | ⟨last, isLast, isPositive⟩)
          · cases count with
            | zero => exact absurd reached notReached
            | succ count => exact positive (by simpa using reached)
          · cases isLast
            exact isPositive
      | cons next rest =>
          rw [choose_cons_cons]
          by_cases reached : sample ≤ total + weight
          · refine ⟨weight, by simp [reached], fun _ => .inl ⟨1, reached⟩,
              fun _ => positive reached⟩
          · rcases induction reached (List.cons_ne_nil next rest) restNotNegative with
              ⟨chosen, isChosen, law⟩
            refine ⟨chosen, by simpa [reached] using isChosen, law.trans (or_congr ?_ ?_)⟩
            · constructor
              · rintro ⟨count, isReached⟩
                exact ⟨count + 1, isReached⟩
              · rintro ⟨count, isReached⟩
                cases count with
                | zero => exact absurd isReached notReached
                | succ count => exact ⟨count, isReached⟩
            · rw [List.getLast?_cons_cons]

theorem choose_zero_pos_iff (isSample : 0 ≤ sample) (nonempty : weights ≠ [])
    (notNegative : ∀ weight ∈ weights, 0 ≤ weight) :
    ∃ weight, weights[choose sample 0 weights]? = some weight ∧
      (0 < weight ↔ (0 < sample ∨ ∃ first ∈ weights.head?, 0 < first) ∧
        ((∃ count, sample ≤ (weights.take count).foldl (· + ·) 0) ∨
          ∃ last ∈ weights.getLast?, 0 < last)) := by
  by_cases positive : 0 < sample
  · rcases choose_pos_iff (not_le_zero positive) nonempty notNegative with
      ⟨weight, isChosen, law⟩
    exact ⟨weight, isChosen, law.trans (and_iff_right (.inl positive)).symm⟩
  · cases weights with
    | nil => contradiction
    | cons first rest =>
        have isFirst : 0 ≤ first := notNegative first List.mem_cons_self
        have reached : sample ≤ 0 + first :=
          le_zero_add_iff.mpr (le_of_not_pos isSample positive isFirst)
        refine ⟨first, ?_, ?_⟩
        · cases rest with
          | nil => rfl
          | cons next rest =>
              rw [choose_cons_cons, if_pos reached]
              rfl
        · constructor
          · exact fun isPositive => ⟨.inr ⟨first, rfl, isPositive⟩, .inl ⟨1, reached⟩⟩
          · rintro ⟨isPositive | ⟨head, isHead, isPositive⟩, _⟩
            · exact absurd isPositive positive
            · cases isHead
              exact isPositive

end Rule

namespace RuleTable

theorem probability_nonneg {settings : TableSettings} {globals : List String}
    {code : Char → Symbol} {productions : List Production} {table : RuleTable}
    (accepted : ofProductions settings globals code productions = .ok table)
    {rule : Rule} (isRule : rule ∈ table.rules) {outcome : Outcome}
    (isOutcome : outcome ∈ rule.outcomes) : 0 ≤ outcome.probability := by
  rcases exists_class_of_mem_rules accepted isRule with ⟨group, isClass, _, isGroup⟩
  have checked :=
    ofProductions_isOk_iff.mp ⟨table, accepted⟩ group (List.mem_of_getElem? isClass)
  rw [isGroup] at isOutcome
  rcases List.mem_map.mp isOutcome with ⟨member, isMember, rfl⟩
  have isProduction : member.production ∈ group.members.map Member.production :=
    List.mem_map_of_mem isMember
  rcases SignatureClass.check_eq_ok_iff_makeUpRule.mp checked with
    ⟨production, single, none⟩ | ⟨weights, all, notNegative, _⟩
  · rw [single, List.mem_singleton] at isProduction
    simp only [SignatureClass.outcome, isProduction, none, Option.map_none,
      Option.getD_none]
    decide +kernel
  · have isWeight : member.production.probability ∈ weights.map some :=
      all ▸ List.mem_map_of_mem isProduction
    rcases List.mem_map.mp isWeight with ⟨weight, isWeight, same⟩
    simp only [SignatureClass.outcome, ← same, Option.map_some, Option.getD_some]
    exact notNegative weight isWeight

end RuleTable

namespace Grammar

variable {rules names : List String} {compiler : CompilerSettings}
    {stepping : SteppingSettings}
  {grammar : Grammar}

/-- The outcome that a sample comes to has a positive probability in all cases but two:
the sample is zero and the first outcome has probability zero, or no sum of the first
probabilities reaches the sample and the last outcome has probability zero. -/
theorem select_pos_iff_of_build
    (built : build rules names compiler stepping = .ok grammar) {rule : Rule}
    (isRule : rule ∈ grammar.table.rules) {sample : Float} (isSample : 0 ≤ sample) :
    ∃ outcome, rule.outcomes[rule.select sample]? = some outcome ∧
      (0 < outcome.probability ↔
        (0 < sample ∨ ∃ first ∈ rule.outcomes.head?, 0 < first.probability) ∧
        ((∃ count, sample ≤
            ((rule.outcomes.map Outcome.probability).take count).foldl (· + ·) 0) ∨
          ∃ last ∈ rule.outcomes.getLast?, 0 < last.probability)) := by
  simp only [build, bind_eq_ok, pure_eq_ok] at built
  rcases built with ⟨_, _, branches, _, ignored, _, table, compiled, _, _, rfl⟩
  rcases Alphabet.exists_productions_of_compileTable (Prod.ext compiled rfl) with
    ⟨productions, _, _, joined⟩
  have sound := (Alphabet.sound_of_compileTable (Prod.ext compiled rfl)).1
  have nonempty : rule.outcomes ≠ [] := (sound.rule rule isRule).outcomes
  have notNegative : ∀ weight ∈ rule.outcomes.map Outcome.probability, 0 ≤ weight := by
    intro weight isWeight
    rcases List.mem_map.mp isWeight with ⟨outcome, isOutcome, rfl⟩
    exact RuleTable.probability_nonneg joined isRule isOutcome
  rcases Rule.choose_zero_pos_iff isSample (List.map_eq_nil_iff.not.mpr nonempty)
    notNegative with
    ⟨weight, isChosen, law⟩
  rw [List.getElem?_map] at isChosen
  rcases Option.map_eq_some_iff.mp isChosen with ⟨outcome, isOutcome, rfl⟩
  refine ⟨outcome, isOutcome, law.trans ?_⟩
  simp only [List.head?_map, List.getLast?_map, Option.mem_map, exists_exists_and_eq_and]

/-- Three outcomes for `A`, the first and the last of them with probability zero. -/
def edgedRules : List String :=
  ["P(0) | A -> B", "P(0.5) | A -> C", "P(0) | A -> D"]

def laxSettings : CompilerSettings :=
  { CompilerSettings.default with tolerance := 0.6 }

private def edgedPasses (test : Rule → Bool) : Bool :=
  match build edgedRules [] laxSettings .default with
  | .error _ => false
  | .ok grammar => grammar.table.rules.head?.any test

private theorem exists_of_edgedPasses {test : Rule → Bool}
    (passes : edgedPasses test = true) :
    ∃ grammar rule, build edgedRules [] laxSettings .default = .ok grammar ∧
      rule ∈ grammar.table.rules ∧ test rule = true := by
  unfold edgedPasses at passes
  split at passes
  · contradiction
  · next grammar built =>
      rcases Option.any_eq_true_iff_get _ _ |>.mp passes with ⟨isSome, passed⟩
      exact ⟨grammar, _, built, List.mem_of_head? (Option.some_get isSome).symm, passed⟩

private def isDrawn? (rule : Rule) (sample : Float) : Option Bool :=
  rule.outcomes[rule.select sample]?.map fun outcome => 0 < outcome.probability

set_option maxRecDepth 100000 in
private theorem edgedPasses_inside :
    edgedPasses (fun rule =>
      0.25 ≤ ((rule.outcomes.map Outcome.probability).take 2).foldl (· + ·) 0) =
        true := by
  decide +kernel

/-- A sample between both ends comes to the outcome in the middle. -/
theorem select_pos_iff_of_build_edged :
    ∃ grammar rule outcome, build edgedRules [] laxSettings .default = .ok grammar ∧
      rule ∈ grammar.table.rules ∧ (0 : Float) ≤ 0.25 ∧
      rule.outcomes[rule.select 0.25]? = some outcome ∧ 0 < outcome.probability := by
  rcases exists_of_edgedPasses edgedPasses_inside with
    ⟨grammar, rule, built, isRule, reached⟩
  have isSample : (0 : Float) ≤ 0.25 := by decide +kernel
  have positive : (0 : Float) < 0.25 := by decide +kernel
  rcases select_pos_iff_of_build built isRule isSample with ⟨outcome, isOutcome, law⟩
  exact ⟨grammar, rule, outcome, built, isRule, isSample, isOutcome,
    law.mpr ⟨.inl positive, .inl ⟨2, of_decide_eq_true reached⟩⟩⟩

set_option maxRecDepth 100000 in
private theorem edgedPasses_ends :
    edgedPasses (fun rule => rule.isStochastic &&
      rule.outcomes.any (fun outcome => 0 < outcome.probability) &&
      isDrawn? rule 0 = some false && isDrawn? rule 0.75 = some false) = true := by
  decide +kernel

/-- Samples at both ends come to outcomes with probability zero, though there is an
outcome with a positive one. -/
theorem select_zero_edged :
    ∃ grammar rule, build edgedRules [] laxSettings .default = .ok grammar ∧
      rule ∈ grammar.table.rules ∧ rule.isStochastic = true ∧
      (∃ outcome ∈ rule.outcomes, 0 < outcome.probability) ∧
      ∀ sample ∈ [(0 : Float), 0.75], 0 ≤ sample ∧ sample < 1 ∧
        ∃ outcome, rule.outcomes[rule.select sample]? = some outcome ∧
          ¬ 0 < outcome.probability := by
  rcases exists_of_edgedPasses edgedPasses_ends with
    ⟨grammar, rule, built, isRule, passes⟩
  simp only [Bool.and_eq_true, decide_eq_true_eq, List.any_eq_true] at passes
  rcases passes with ⟨⟨⟨isStochastic, hasWeight⟩, first⟩, last⟩
  refine ⟨grammar, rule, built, isRule, isStochastic, hasWeight, ?_⟩
  have drawn : ∀ sample, isDrawn? rule sample = some false →
      ∃ outcome, rule.outcomes[rule.select sample]? = some outcome ∧
        ¬ 0 < outcome.probability := by
    intro sample isFalse
    rcases Option.map_eq_some_iff.mp isFalse with ⟨outcome, isOutcome, notPositive⟩
    exact ⟨outcome, isOutcome, of_decide_eq_false notPositive⟩
  intro sample isSample
  rcases List.mem_cons.mp isSample with rfl | isSample
  · exact ⟨by decide +kernel, by decide +kernel, drawn _ first⟩
  · rcases List.mem_singleton.mp isSample with rfl
    exact ⟨by decide +kernel, by decide +kernel, drawn _ last⟩

end Grammar

end LSystems
