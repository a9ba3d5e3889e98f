import LSystems.Proofs.Renaming.Classes

/-!
# Productions divided among rules

There is one class for every signature that occurs, in the order in which the signatures
first occur, and a class holds all productions with its signature in their order. So a
table is accepted or refused by what the productions of each signature are, and every
production becomes one outcome of one rule. Main statement:
`RuleTable.ofProductions_partition`.
-/

namespace LSystems

/-! ## Classes of members -/

namespace SignatureClass

variable {members : List (Signature × Member)} {group : SignatureClass}

theorem ofMembers_same (signature : Signature) (first : Member) (others : List Member) :
    ofMembers ((first :: others).map fun member => (signature, member)) =
      [⟨signature, first, others⟩] := by
  induction others using List.reverseRecOn with
  | nil => rfl
  | append_singleton others last induction =>
      rw [← List.cons_append, List.map_append, List.map_singleton,
        ofMembers_append, induction, insert, if_pos rfl]

theorem members_of_mem_ofMembers (isGroup : group ∈ ofMembers members) :
    group.members =
      (members.filter fun pair => pair.1 = group.signature).map Prod.snd := by
  have isAlike : group ∈ (ofMembers members).filter fun other =>
      other.signature = group.signature := List.mem_filter.mpr ⟨isGroup, by simp⟩
  have tagged : members.filter (fun pair => pair.1 = group.signature) =
      ((members.filter fun pair => pair.1 = group.signature).map Prod.snd).map
        fun member => (group.signature, member) := by
    rw [List.map_map, eq_comm]
    refine (List.map_congr_left fun pair isPair => ?_).trans (List.map_id _)
    have same : pair.1 = group.signature := by simpa using List.of_mem_filter isPair
    exact Prod.ext same.symm rfl
  rw [filter_ofMembers fun signature => signature = group.signature, tagged] at isAlike
  cases alike : (members.filter fun pair => pair.1 = group.signature).map Prod.snd with
  | nil =>
      rw [alike] at isAlike
      cases isAlike
  | cons first others =>
      rw [alike, ofMembers_same] at isAlike
      rw [List.mem_singleton.mp isAlike]
      rfl

theorem map_signature_insert (signature : Signature) (member : Member)
    (groups : List SignatureClass) :
    (insert signature member groups).map SignatureClass.signature =
      if signature ∈ groups.map SignatureClass.signature then
        groups.map SignatureClass.signature
      else groups.map SignatureClass.signature ++ [signature] := by
  induction groups with
  | nil => rfl
  | cons group groups induction =>
      by_cases same : group.signature = signature
      · simp [insert, same]
      · simp only [insert, if_neg same, List.map_cons, induction,
          List.mem_cons, Ne.symm same, false_or]
        split
        · rfl
        · rfl

theorem map_signature_ofMembers (members : List (Signature × Member)) :
    (ofMembers members).map SignatureClass.signature =
      (members.map Prod.fst).eraseDups := by
  induction members using List.reverseRecOn with
  | nil => rfl
  | append_singleton members last induction =>
      rw [ofMembers_append, map_signature_insert, induction, List.map_append,
        List.map_singleton, List.eraseDups_append]
      simp only [List.mem_eraseDups]
      split
      · next known => simp [List.removeAll, known]
      · next new => simp [List.removeAll, new, List.eraseDups_cons]

theorem perm_flatMap_ofMembers (members : List (Signature × Member)) :
    ((ofMembers members).flatMap SignatureClass.members).Perm (members.map Prod.snd) := by
  have inserted (signature : Signature) (member : Member) (groups : List SignatureClass) :
      ((insert signature member groups).flatMap SignatureClass.members).Perm
        (groups.flatMap SignatureClass.members ++ [member]) := by
    induction groups with
    | nil => exact .refl _
    | cons group groups induction =>
        rw [insert]
        split
        · have moved : ([member] ++ groups.flatMap SignatureClass.members).Perm
              (groups.flatMap SignatureClass.members ++ [member]) := List.perm_append_comm
          simpa [SignatureClass.members] using
            moved.append_left (group.first :: group.others)
        · rw [List.flatMap_cons, List.flatMap_cons, List.append_assoc]
          exact induction.append_left _
  induction members using List.reverseRecOn with
  | nil => exact .refl _
  | append_singleton members last induction =>
      rw [ofMembers_append, List.map_append, List.map_singleton]
      exact (inserted ..).trans (induction.append_right _)

theorem sublist_map_first_ofMembers (members : List (Signature × Member)) :
    ((ofMembers members).map SignatureClass.first).Sublist (members.map Prod.snd) := by
  have inserted (signature : Signature) (member : Member) (groups : List SignatureClass) :
      ((insert signature member groups).map SignatureClass.first).Sublist
        (groups.map SignatureClass.first ++ [member]) := by
    induction groups with
    | nil => exact .refl _
    | cons group groups induction =>
        rw [insert]
        split
        · exact List.sublist_append_left _ _
        · exact induction.cons_cons _
  induction members using List.reverseRecOn with
  | nil => exact .refl _
  | append_singleton members last induction =>
      rw [ofMembers_append, List.map_append, List.map_singleton]
      exact (inserted ..).trans (induction.append_right _)

end SignatureClass

/-! ## Classes of productions -/

namespace Production

/-- The productions with a signature under their places. -/
def sharing (sign : Production → Signature) (productions : List Production)
    (signature : Signature) : List (Production × Nat) :=
  productions.zipIdx.filter fun pair => sign pair.1 = signature

/-- Productions make up one rule if there is one without a probability, or if all have
probabilities, none of them negative, whose sum in order differs from one by no more
than the tolerance. -/
def MakeUpRule (tolerance : Float) (productions : List Production) : Prop :=
  (∃ production, productions = [production] ∧ production.probability = none) ∨
    ∃ weights : List (Float × Span),
      productions.map Production.probability = weights.map some ∧
      (∀ weight ∈ weights, 0 ≤ weight.1) ∧
      ¬ tolerance < ((weights.map Prod.fst).foldl (· + ·) (-0.0) - 1).abs

end Production

theorem Production.map_fst_sharing (sign : Production → Signature)
    (productions : List Production) (signature : Signature) :
    (sharing sign productions signature).map Prod.fst =
      productions.filter fun production => sign production = signature := by
  conv_rhs => rw [← List.zipIdx_map_fst 0 productions, List.filter_map]
  rfl

namespace SignatureClass

variable {sign : Production → Signature} {productions : List Production}
    {group : SignatureClass}

theorem members_of_mem_ofProductions (isGroup : group ∈ ofProductions sign productions) :
    group.members =
      (Production.sharing sign productions group.signature).map
        fun (production, source) => ⟨source, production⟩ := by
  rw [ofProductions_eq] at isGroup
  rw [members_of_mem_ofMembers isGroup, List.filter_map, List.map_map]
  rfl

theorem pairwise_source_members (isGroup : group ∈ ofProductions sign productions) :
    group.members.Pairwise fun earlier later => earlier.source < later.source := by
  rw [members_of_mem_ofProductions isGroup, List.pairwise_map]
  apply List.Pairwise.filter
  apply List.pairwise_map.mp
  rw [List.zipIdx_map_snd, ← List.range_eq_range']
  exact List.pairwise_lt_range

theorem map_signature_ofProductions (sign : Production → Signature)
    (productions : List Production) :
    (ofProductions sign productions).map SignatureClass.signature =
      (productions.map sign).eraseDups := by
  have signs : (Prod.fst ∘ fun pair : Production × Nat =>
      (sign pair.1, Member.mk pair.2 pair.1)) = sign ∘ Prod.fst := rfl
  rw [ofProductions_eq, map_signature_ofMembers, List.map_map, signs, ← List.map_map,
    List.zipIdx_map_fst]

theorem perm_sources_ofProductions (sign : Production → Signature)
    (productions : List Production) :
    ((ofProductions sign productions).flatMap fun group =>
      group.members.map Member.source).Perm (List.range productions.length) := by
  have all := (perm_flatMap_ofMembers (productions.zipIdx.map fun (production, source) =>
    (sign production, ⟨source, production⟩))).map Member.source
  rw [← ofProductions_eq, List.map_flatMap, List.map_map, List.map_map] at all
  rwa [List.range_eq_range', ← List.zipIdx_map_snd 0 productions]

theorem pairwise_first_ofProductions (sign : Production → Signature)
    (productions : List Production) :
    (ofProductions sign productions).Pairwise fun earlier later =>
      earlier.first.source < later.first.source := by
  have firsts :=
    (sublist_map_first_ofMembers (productions.zipIdx.map fun (production, source) =>
    (sign production, ⟨source, production⟩))).map Member.source
  rw [← ofProductions_eq, List.map_map, List.map_map, List.map_map] at firsts
  have places : ((ofProductions sign productions).map (Member.source ∘ first)).Sublist
      (List.range productions.length) := by
    rwa [List.range_eq_range', ← List.zipIdx_map_snd 0 productions]
  exact List.pairwise_map.mp (List.pairwise_lt_range.sublist places)

/-! ## Acceptance -/

private theorem map_eq_map_some {α β : Type} {part : α → Option β} {values : List α}
    {parts : List β} (all : values.map part = parts.map some) :
    values.filterMap part = parts := by
  have joined := congrArg (List.filterMap id) all
  rwa [List.filterMap_map, List.filterMap_map, Function.id_comp, Function.id_comp,
    List.filterMap_some] at joined

private theorem map_eq_of_length_le {α β : Type} {part : α → Option β} {values : List α}
    (all : values.length ≤ (values.filterMap part).length) :
    values.map part = (values.filterMap part).map some := by
  induction values with
  | nil => rfl
  | cons value rest induction =>
      have atMost := List.length_filterMap_le part rest
      cases isPart : part value with
      | none =>
          rw [List.filterMap_cons_none isPart, List.length_cons] at all
          omega
      | some first =>
          rw [List.filterMap_cons_some isPart, List.length_cons, List.length_cons] at all
          rw [List.filterMap_cons_some isPart, List.map_cons, List.map_cons, isPart,
            induction (Nat.le_of_succ_le_succ all)]

theorem check_eq_ok_iff_makeUpRule {tolerance : Float} :
    group.check tolerance = .ok () ↔
      Production.MakeUpRule tolerance (group.members.map Member.production) := by
  rw [check_eq_ok_iff]
  constructor
  · intro accepted
    split at accepted
    · next empty =>
        have none := List.filterMap_eq_nil_iff.mp (List.isEmpty_iff.mp empty)
        have alone : group.others = [] :=
          List.length_eq_zero_iff.mp (Nat.le_zero.mp (Nat.le_of_succ_le_succ accepted))
        refine .inl ⟨group.first.production, ?_, none group.first (List.mem_cons_self ..)⟩
        rw [members, alone]
        rfl
    · rcases accepted with ⟨all, noNegative, inside⟩
      refine .inr ⟨group.probabilities, ?_, fun weight isWeight => ?_, inside⟩
      · rw [List.map_map]
        exact map_eq_of_length_le all
      · rcases List.mem_filterMap.mp isWeight with ⟨member, isMember, isProbability⟩
        exact noNegative member isMember weight isProbability
  · rintro (⟨production, single, none⟩ | ⟨weights, all, noNegative, inside⟩)
    · rcases List.map_eq_singleton_iff.mp single with ⟨member, isOnly, rfl⟩
      have empty : group.probabilities = [] := by
        simp [probabilities, isOnly, none]
      rw [empty, isOnly]
      exact Nat.le_refl 1
    · rw [List.map_map] at all
      have areWeights : group.probabilities = weights := map_eq_map_some all
      have length : group.members.length = weights.length := by
        simpa using congrArg List.length all
      have nonempty : weights.isEmpty = false := by
        rw [List.isEmpty_eq_false_iff, ← List.length_pos_iff, ← length]
        exact Nat.zero_lt_succ _
      rw [areWeights, nonempty]
      refine ⟨Nat.le_of_eq length,
        fun member isMember value isValue => noNegative value ?_, inside⟩
      have isSome : some value ∈ weights.map some := by
        rw [← all]
        exact List.mem_map.mpr ⟨member, isMember, isValue⟩
      rcases List.mem_map.mp isSome with ⟨weight, isWeight, same⟩
      exact Option.some.inj same ▸ isWeight

end SignatureClass

/-! ## Rules -/

/-- The outcome is what a production at a place of the list comes to. -/
structure Outcome.Of (code : Char → Symbol) (outcome : Outcome) (production : Production)
    (source : Nat) : Prop where
  source : outcome.source = source
  probability : outcome.probability = (production.probability.map Prod.fst).getD 1
  replacement : outcome.replacement = production.replacement.map (Emission.rename code)
  parameterCount : outcome.parameterCount =
    (production.replacement.map fun emission => emission.parameters.length).sum

theorem SignatureClass.outcome_of (code : Char → Symbol) (member : Member) :
    (outcome code member).Of code member.production member.source where
  source := rfl
  probability := rfl
  replacement := rfl
  parameterCount := by
    simp [Outcome.parameterCount, outcome, List.length_flatMap, Function.comp_def,
      Emission.rename]

/-- The rule asks for what a signature says, and its outcomes are the productions with
this signature, in their order. -/
structure Rule.Of (code : Char → Symbol) (sign : Production → Signature)
    (productions : List Production) (rule : Rule) (signature : Signature)
    (id : Nat) : Prop where
  id : rule.id = id
  target : rule.target = signature.target
  left : rule.left = signature.left
  right : rule.right = signature.right
  outcomes : List.Forall₂ (fun outcome (production, source) =>
    outcome.Of code production source) rule.outcomes
      (Production.sharing sign productions signature)

theorem SignatureClass.rule_of {code : Char → Symbol} {sign : Production → Signature}
    {productions : List Production} {group : SignatureClass}
    (isGroup : group ∈ ofProductions sign productions) (id : Nat) :
    (group.rule code id).Of code sign productions group.signature id where
  id := rfl
  target := rfl
  left := rfl
  right := rfl
  outcomes := by
    rw [rule, members_of_mem_ofProductions isGroup, List.map_map,
      List.forall₂_map_left_iff, List.forall₂_same]
    exact fun pair _ => outcome_of code ⟨pair.2, pair.1⟩

theorem SignatureClass.flatMap_sources_rule (code : Char → Symbol)
    (groups : List SignatureClass) :
    groups.zipIdx.flatMap (fun pair =>
      (pair.1.rule code pair.2).outcomes.map Outcome.source) =
        groups.flatMap fun group => group.members.map Member.source := by
  conv_rhs => rw [← List.zipIdx_map_fst 0 groups]
  rw [List.flatMap_map]
  apply List.flatMap_congr
  intro pair _
  exact List.map_map

namespace RuleTable

/-- A table is accepted exactly if the productions of each signature make up one rule.
It has one rule for each signature, numbered in the order in which the signatures first
occur, and the outcomes of this rule are the productions with the signature in their
order. Every production is one outcome of one rule. -/
theorem ofProductions_partition (settings : TableSettings) (globals : List String)
    (code : Char → Symbol) (productions : List Production) :
    let sign := Production.signature code settings.branches
    ((∃ table, ofProductions settings globals code productions = .ok table) ↔
      ∀ signature ∈ productions.map sign, Production.MakeUpRule settings.tolerance
        (productions.filter fun production => sign production = signature)) ∧
    ∀ table, ofProductions settings globals code productions = .ok table →
      List.Forall₂ (fun rule (signature, id) =>
        rule.Of code sign productions signature id)
        table.rules (productions.map sign).eraseDups.zipIdx ∧
      (table.rules.flatMap fun rule => rule.outcomes.map Outcome.source).Perm
        (List.range productions.length) := by
  intro sign
  have members : ∀ group ∈ classes settings code productions,
      group.members.map Member.production =
        productions.filter fun production => sign production = group.signature := by
    intro group isGroup
    rw [SignatureClass.members_of_mem_ofProductions isGroup, List.map_map,
      ← Production.map_fst_sharing]
    rfl
  have signatures : (classes settings code productions).map SignatureClass.signature =
      (productions.map sign).eraseDups :=
        SignatureClass.map_signature_ofProductions sign productions
  constructor
  · rw [ofProductions_isOk_iff]
    have each :
        (∀ signature ∈ productions.map sign, Production.MakeUpRule settings.tolerance
          (productions.filter fun production => sign production = signature)) ↔
        ∀ group ∈ classes settings code productions,
          Production.MakeUpRule settings.tolerance
          (productions.filter fun production => sign production = group.signature) := by
      simp only [← List.mem_eraseDups (l := productions.map sign), ← signatures,
        List.forall_mem_map]
    rw [each]
    apply forall₂_congr
    intro group isGroup
    rw [SignatureClass.check_eq_ok_iff_makeUpRule, members group isGroup]
  · intro table accepted
    rw [(eq_of_ofProductions accepted).1]
    constructor
    · rw [← signatures, List.zipIdx_map, List.forall₂_map_left_iff,
        List.forall₂_map_right_iff, List.forall₂_same]
      intro pair isPair
      exact SignatureClass.rule_of (List.fst_mem_of_mem_zipIdx isPair) pair.2
    · rw [List.flatMap_map, SignatureClass.flatMap_sources_rule]
      exact SignatureClass.perm_sources_ofProductions sign productions

/-- Two rules for `A` in front of `B`, with a rule for `B` between them. -/
def interleavedRules : List String :=
  ["P(0.25) | A(x) > B -> B(x, x)A", "B -> A(1)", "P(0.75) | A(y) > B -> "]

/-- Symbols are the code points of the letters, and probabilities have to sum to one
exactly. -/
def exactSettings : TableSettings :=
  ⟨⟨'['.toNat, ']'.toNat⟩, .empty, 0⟩

private def dividesInterleaved : Bool :=
  match (Production.readAll [] ⟨'[', ']'⟩ 0 interleavedRules).outcome with
  | .error _ => false
  | .ok productions =>
    match ofProductions exactSettings [] Char.toNat productions with
    | .error _ => false
    | .ok table =>
      table.rules.map (fun rule => rule.outcomes.map fun outcome =>
        (outcome.source, outcome.parameterCount)) = [[(0, 2), (2, 0)], [(1, 1)]]

set_option maxRecDepth 100000 in
private theorem dividesInterleaved_eq : dividesInterleaved = true := by
  decide +kernel

/-- The first and the third production are the outcomes of the first rule. -/
theorem ofProductions_partition_interleaved :
    ∃ (productions : List Production) (table : RuleTable),
      (Production.readAll [] ⟨'[', ']'⟩ 0 interleavedRules).outcome = .ok productions ∧
      ofProductions exactSettings [] Char.toNat productions = .ok table ∧
      table.rules.map (fun rule => rule.outcomes.map fun outcome =>
        (outcome.source, outcome.parameterCount)) = [[(0, 2), (2, 0)], [(1, 1)]] ∧
      (table.rules.flatMap fun rule => rule.outcomes.map Outcome.source).Perm
        (List.range productions.length) ∧
      ∀ signature ∈
        productions.map (Production.signature Char.toNat exactSettings.branches),
        Production.MakeUpRule 0 (productions.filter fun production =>
          production.signature Char.toNat exactSettings.branches = signature) := by
  have divides := dividesInterleaved_eq
  unfold dividesInterleaved at divides
  split at divides
  · contradiction
  · next productions areRead =>
      split at divides
      · contradiction
      · next table accepted =>
          have partition :=
            ofProductions_partition exactSettings [] Char.toNat productions
          exact ⟨productions, table, areRead, accepted, of_decide_eq_true divides,
            (partition.2 table accepted).2, partition.1.mp ⟨table, accepted⟩⟩

end RuleTable

end LSystems
