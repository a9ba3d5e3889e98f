import LSystems.Proofs.Table.Alike
import LSystems.Proofs.Table.Sound

/-!
# Origins of outcomes

Every outcome of a rule is made from a production of its own, and what the rule asks for
is what this production asks for.
-/

namespace LSystems

/-- An outcome of a rule and the rule itself, as they are made from a production. -/
structure Production.Makes (production : Production) (code : Char → Symbol)
    (branches : BranchPair Symbol) (rule : Rule) (outcome : Outcome) : Prop where
  target : rule.target = production.target.shape code
  left : rule.left = production.left.map (PatternSymbol.shape code)
  right :
    rule.right = .ofShapes branches (production.right.map (PatternSymbol.shape code))
  capturedCount : rule.capturedCount = production.captured.length
  replacement : outcome.replacement = production.replacement.map (Emission.rename code)
  condition : rule.outcomes.head? = some outcome → rule.condition = production.condition

namespace Alphabet

variable {alphabet final : Alphabet} {branches : BranchPair Char} {ignored : SymbolSet}
  {tolerance : Float} {globals : List String} {texts : List String} {table : RuleTable}

theorem exists_makes_of_mem_outcomes
    (accepted : alphabet.compileTable branches ignored tolerance globals texts =
      (.ok table, final))
    {rule : Rule} (isRule : rule ∈ table.rules) {outcome : Outcome}
    (isOutcome : outcome ∈ rule.outcomes) :
    ∃ production : Production,
      production.IsRead globals branches texts outcome.source ∧
      (∀ letter ∈ production.letters, letter ∈ final.letters) ∧
      production.Makes final.code table.settings.branches rule outcome := by
  rcases exists_productions_of_compileTable accepted with
    ⟨productions, areRead, known, joined⟩
  have codes := branches_of_compileTable accepted
  rcases RuleTable.exists_class_of_mem_rules joined isRule with ⟨group, _, sound, isGroup⟩
  have ofMember : ∀ member ∈ group.members,
      member.production.IsRead globals branches texts member.source ∧
      (∀ letter ∈ member.production.letters, letter ∈ final.letters) ∧
      rule.arity = member.production.captured.length := by
    intro member isMember
    have isProduction := (sound member isMember).1
    have isRead := Production.isRead_of_forall₂ areRead isProduction
    have memberKnown := known _ (List.mem_of_getElem? isProduction)
    refine ⟨isRead, memberKnown, ?_⟩
    rw [isGroup]
    apply sound.arity_rule isMember isRead.bound
    intro symbol isSymbol
    apply memberKnown
    apply Production.mem_letters_of_mem_pattern
    exact List.mem_append_right _ (List.mem_cons_of_mem _ isSymbol)
  have outcomes :
      rule.outcomes = group.members.map (SignatureClass.outcome final.code) := by
    rw [isGroup]
    rfl
  rw [outcomes] at isOutcome
  rcases List.mem_map.mp isOutcome with ⟨member, isMember, rfl⟩
  rcases ofMember member isMember with ⟨isRead, memberKnown, arity⟩
  have same := (sound member isMember).2
  refine ⟨member.production, isRead, memberKnown, ?_⟩
  rw [codes]
  exact
    { target := by rw [isGroup]; exact (congrArg Signature.target same).symm
      left := by rw [isGroup]; exact (congrArg Signature.left same).symm
      right := by rw [isGroup]; exact (congrArg Signature.right same).symm
      capturedCount := by
        have first := (ofMember group.first (List.mem_cons_self ..)).2.2
        rw [← arity, first, isGroup]
        rfl
      replacement := rfl
      condition := by
        -- A class keeps only the condition of its first member, and sources tell members
        -- apart.
        intro isHead
        have isFirst : SignatureClass.outcome final.code group.first =
            SignatureClass.outcome final.code member := by
          rw [outcomes] at isHead
          exact Option.some.inj isHead
        have sources : group.first.source = member.source :=
          congrArg Outcome.source isFirst
        have firstFound := (sound group.first (List.mem_cons_self ..)).1
        rw [sources, (sound member isMember).1] at firstFound
        rw [isGroup, Option.some.inj firstFound]
        rfl }

theorem contains_shape_of_mem_right
    (accepted : alphabet.compileTable branches ignored tolerance globals texts =
      (.ok table, final))
    {production : Production}
    (known : ∀ letter ∈ production.letters, letter ∈ final.letters)
    {symbol : PatternSymbol} (member : symbol ∈ production.right) :
    table.settings.branches.contains (symbol.shape final.code).symbol =
      branches.contains symbol.letter := by
  have isKnown : symbol.letter ∈ final.letters :=
    known _ (Production.mem_letters_of_mem_pattern
      (List.mem_append_right _ (List.mem_cons_of_mem _ member)))
  rw [branches_of_compileTable accepted, PatternSymbol.shape,
    contains_codes branches isKnown]

end Alphabet

end LSystems
