import LSystems.Proofs.Renaming.Rules
import Mathlib.Data.List.Induction

/-!
# Tables of rearranged productions

The classes of productions for one symbol depend on the productions for that symbol
alone, and on their order. So a table may be made of the same productions in another
order, and with other numbers for their letters, as long as the productions for each
symbol keep their order among themselves. Main statements:
`RuleTable.exists_ofProductions` and `RuleTable.renames_of_ofProductions`.
-/

namespace LSystems

/-! ## Sorting a part -/

section Sorting

variable {α : Type}

private theorem eq_of_append_eq (test : α → Bool) {front back front' back' : List α}
    (same : front ++ back = front' ++ back')
    (passes : ∀ value ∈ front, test value = true)
    (fails : ∀ value ∈ back, test value = false)
    (passes' : ∀ value ∈ front', test value = true)
    (fails' : ∀ value ∈ back', test value = false) : front = front' ∧ back = back' := by
  have filtered : ∀ {first second : List α}, (∀ value ∈ first, test value = true) →
      (∀ value ∈ second, test value = false) → (first ++ second).filter test = first := by
    intro first second passes fails
    rw [List.filter_append, List.filter_eq_self.mpr passes,
      List.filter_eq_nil_iff.mpr fun value member => by simp [fails value member],
      List.append_nil]
  have fronts := congrArg (List.filter test) same
  rw [filtered passes fails, filtered passes' fails'] at fronts
  rw [fronts] at same
  exact ⟨fronts, List.append_cancel_left same⟩

/-- A stable sort puts a part of a list into the order in which it puts the whole. -/
theorem filter_mergeSort {le : α → α → Bool}
    (trans : ∀ first second third, le first second → le second third → le first third)
    (total : ∀ first second, le first second || le second first) (test : α → Bool)
    (values : List α) :
    (values.mergeSort le).filter test = (values.filter test).mergeSort le := by
  induction values with
  | nil => simp
  | cons value rest induction =>
      rcases List.mergeSort_cons trans total value rest with
        ⟨front, back, whole, parts, below⟩
      have sorted := List.pairwise_mergeSort trans total (value :: rest)
      rw [whole] at sorted
      have above : ∀ other ∈ back, le value other = true :=
        fun _ => List.rel_of_pairwise_cons (List.pairwise_append.mp sorted).2.1
      rw [parts, List.filter_append] at induction
      rw [whole, List.filter_append]
      by_cases kept : test value = true
      · rcases List.mergeSort_cons trans total value (rest.filter test) with
          ⟨front', back', whole', parts', below'⟩
        have sorted' := List.pairwise_mergeSort trans total (value :: rest.filter test)
        rw [whole'] at sorted'
        have above' : ∀ other ∈ back', le value other = true :=
          fun _ => List.rel_of_pairwise_cons (List.pairwise_append.mp sorted').2.1
        -- Both sorts put the head behind what is below it and in front of all the rest.
        rcases eq_of_append_eq (fun other => !le value other)
          (parts'.symm.trans induction.symm) below'
          (fun other member => by simp [above' other member])
          (fun other member => below other (List.mem_of_mem_filter member))
          (fun other member => by simp [above other (List.mem_of_mem_filter member)])
          with ⟨rfl, rfl⟩
        rw [List.filter_cons_of_pos kept, List.filter_cons_of_pos kept, whole']
      · rw [List.filter_cons_of_neg kept, List.filter_cons_of_neg kept, induction]

end Sorting

namespace RuleTable

theorem filter_rank (test : Rule → Bool) (rules : List Rule) :
    (rank rules).filter test = rank (rules.filter test) := by
  apply filter_mergeSort
  · intro first second third
    simp only [decide_eq_true_eq]
    exact fun above below => Nat.le_trans below above
  · intro first second
    simpa using Nat.le_total second.specificity first.specificity

theorem map_rank {view : Rule → Rule}
    (same : ∀ rule : Rule, (view rule).specificity = rule.specificity)
    (rules : List Rule) :
    (rank rules).map view = rank (rules.map view) := by
  apply List.map_mergeSort
  intro first _ second _
  rw [same, same]

end RuleTable

/-! ## Classes -/

def Member.bare (member : Member) : Member :=
  { member with source := 0 }

section

variable {name : Symbol → Symbol} (injective : Function.Injective name)
include injective

theorem Shape.rename_injective : Function.Injective (Shape.rename name) := by
  rintro ⟨first, arity⟩ ⟨second, otherArity⟩ same
  simpa [Shape.rename, injective.eq_iff] using same

theorem RightContext.rename_injective :
    Function.Injective (RightContext.rename name) := by
  have nodes : Function.Injective (ContextNode.rename name) := by
    rintro ⟨first, links⟩ ⟨second, otherLinks⟩ same
    simpa [ContextNode.rename, (Shape.rename_injective injective).eq_iff] using same
  rintro ⟨first, root⟩ ⟨second, otherRoot⟩ same
  simpa [RightContext.rename, Array.map_inj_right nodes] using same

end

namespace Signature

def rename (name : Symbol → Symbol) (signature : Signature) : Signature :=
  { signature with
    target := signature.target.rename name
    left := signature.left.map (Shape.rename name)
    right := signature.right.rename name }

theorem rename_injective {name : Symbol → Symbol} (injective : Function.Injective name) :
    Function.Injective (rename name) := by
  rintro ⟨target, left, right, condition⟩ ⟨target', left', right', condition'⟩ same
  simpa [rename, (Shape.rename_injective injective).eq_iff,
    (RightContext.rename_injective injective).eq_iff,
    (List.map_injective_iff.mpr (Shape.rename_injective injective)).eq_iff] using same

end Signature

namespace SignatureClass

/-- The classes of members that come with their signatures, in the order of their first
members. -/
def ofMembers (members : List (Signature × Member)) : List SignatureClass :=
  members.foldl (fun groups (signature, member) => insert signature member groups) []

theorem ofProductions_eq (signature : Production → Signature)
    (productions : List Production) :
    ofProductions signature productions =
      ofMembers (productions.zipIdx.map fun (production, source) =>
        (signature production, ⟨source, production⟩)) := by
  rw [ofMembers, List.foldl_map]
  rfl

theorem ofMembers_append (members : List (Signature × Member))
    (last : Signature × Member) :
    ofMembers (members ++ [last]) = insert last.1 last.2 (ofMembers members) := by
  simp [ofMembers]

theorem filter_insert (test : Signature → Bool) (signature : Signature) (member : Member)
    (groups : List SignatureClass) :
    (insert signature member groups).filter (fun group => test group.signature) =
      if test signature then
        insert signature member (groups.filter fun group => test group.signature)
      else groups.filter fun group => test group.signature := by
  induction groups with
  | nil => simp [insert, List.filter_cons]
  | cons group groups induction =>
      by_cases same : group.signature = signature
      · cases passes : test signature <;> simp [insert, same, passes]
      · cases passes : test group.signature <;>
          simp [insert, same, passes, induction, apply_ite (List.cons group)]

theorem filter_ofMembers (test : Signature → Bool) (members : List (Signature × Member)) :
    (ofMembers members).filter (fun group => test group.signature) =
      ofMembers (members.filter fun pair => test pair.1) := by
  induction members using List.reverseRecOn with
  | nil => rfl
  | append_singleton members last induction =>
      rw [ofMembers_append, filter_insert, induction, List.filter_append]
      cases passes : test last.1 <;> simp [passes, ofMembers_append]

def map (change : Signature → Signature) (view : Member → Member)
    (group : SignatureClass) :
    SignatureClass :=
  ⟨change group.signature, view group.first, group.others.map view⟩

theorem map_insert {change : Signature → Signature}
    (injective : Function.Injective change) (view : Member → Member)
    (signature : Signature) (member : Member) (groups : List SignatureClass) :
    (insert signature member groups).map (map change view) =
      insert (change signature) (view member) (groups.map (map change view)) := by
  induction groups with
  | nil => rfl
  | cons group groups induction =>
      by_cases same : group.signature = signature
      · simp [insert, map, same]
      · have differ : change group.signature ≠ change signature := injective.ne same
        simp [insert, map, same, differ, induction]

theorem map_ofMembers {change : Signature → Signature}
    (injective : Function.Injective change) (view : Member → Member)
    (members : List (Signature × Member)) :
    (ofMembers members).map (map change view) =
      ofMembers (members.map (Prod.map change view)) := by
  induction members using List.reverseRecOn with
  | nil => rfl
  | append_singleton members last induction =>
      rw [ofMembers_append, map_insert injective, induction, List.map_append,
        List.map_singleton, ofMembers_append]
      rfl

end SignatureClass

/-! ## Rows without their numbers -/

private theorem map_filter_zipIdx {α β γ : Type} {make : α × Nat → β} {test : β → Bool}
    {view : β → γ} {testValue : α → Bool} {viewValue : α → γ}
    (tests : ∀ pair, test (make pair) = testValue pair.1)
    (views : ∀ pair, view (make pair) = viewValue pair.1) (values : List α) :
    ((values.zipIdx.map make).filter test).map view =
      (values.filter testValue).map viewValue := by
  have sameTests : test ∘ make = testValue ∘ Prod.fst := funext tests
  have sameViews : view ∘ make = viewValue ∘ Prod.fst := funext views
  rw [List.filter_map, List.map_map, sameTests, sameViews, ← List.map_map,
    ← List.filter_map, List.zipIdx_map_fst]

namespace SignatureClass

def membersFor (code : Char → Symbol) (branches : BranchPair Symbol)
    (productions : List Production) (symbol : Symbol) : List (Signature × Member) :=
  (productions.filter fun production => code production.target.letter = symbol).map
    fun production => (production.signature code branches, ⟨0, production⟩)

theorem filter_ofProductions (code : Char → Symbol) (branches : BranchPair Symbol)
    (productions : List Production) (symbol : Symbol) :
    ((ofProductions (Production.signature code branches) productions).filter fun group =>
        group.signature.target.symbol = symbol).map (map id Member.bare) =
      ofMembers (membersFor code branches productions symbol) := by
  rw [ofProductions_eq,
    filter_ofMembers fun signature => signature.target.symbol = symbol,
    map_ofMembers Function.injective_id, map_filter_zipIdx]
  · rfl
  · intro pair
    rfl
  · intro pair
    rfl

end SignatureClass

/-! ## Rearranged productions -/

/-- The second list has the productions of the first for each symbol in the same order,
and its letters have the numbers that the name gives to those in the first. -/
structure Production.Rearranged (name : Symbol → Symbol) (code other : Char → Symbol)
    (first second : List Production) : Prop where
  injective : Function.Injective name
  codes : ∀ production ∈ first, ∀ letter ∈ production.letters,
    name (code letter) = other letter
  alike :
    ∀ symbol, first.filter (fun production => code production.target.letter = symbol) =
    second.filter fun production => code production.target.letter = symbol

section

variable {name : Symbol → Symbol} {code other : Char → Symbol}
    {first second : List Production}

namespace Production

theorem letter_target_mem (production : Production) :
    production.target.letter ∈ production.letters :=
  mem_letters_of_mem_pattern (List.mem_append_right _ (List.mem_cons_self ..))

theorem shapes_rename {patterns : List PatternSymbol}
    (codes : ∀ pattern ∈ patterns, name (code pattern.letter) = other pattern.letter) :
    patterns.map (PatternSymbol.shape other) =
      (patterns.map (PatternSymbol.shape code)).map (Shape.rename name) := by
  rw [List.map_map]
  apply List.map_congr_left
  intro pattern member
  simp [PatternSymbol.shape, Shape.rename, codes pattern member]

theorem signature_rename (injective : Function.Injective name)
    (branches : BranchPair Symbol) {production : Production}
    (codes : ∀ letter ∈ production.letters, name (code letter) = other letter) :
    production.signature other (branches.map name) =
      (production.signature code branches).rename name := by
  have ofPattern :
      ∀ symbol ∈ production.pattern, name (code symbol.letter) = other symbol.letter :=
    fun symbol member => codes _ (mem_letters_of_mem_pattern member)
  have left := shapes_rename fun symbol member =>
    ofPattern symbol (List.mem_append_left _ member)
  have right := shapes_rename fun symbol member =>
    ofPattern symbol (List.mem_append_right _ (List.mem_cons_of_mem _ member))
  have target := codes _ production.letter_target_mem
  simp only [signature, Signature.rename, left, right,
    RightContext.ofShapes_rename injective, PatternSymbol.shape, Shape.rename, target]

namespace Rearranged

theorem mem_iff (rearranged : Rearranged name code other first second)
    {production : Production} :
    production ∈ second ↔ production ∈ first := by
  have same :=
    congrArg (production ∈ ·) (rearranged.alike (code production.target.letter))
  simpa using same.symm

theorem membersFor (rearranged : Rearranged name code other first second)
    (branches : BranchPair Symbol) (symbol : Symbol) :
    SignatureClass.membersFor other (branches.map name) second (name symbol) =
      (SignatureClass.membersFor code branches first symbol).map
        (Prod.map (Signature.rename name) id) := by
  have codes : ∀ production ∈ second, ∀ letter ∈ production.letters,
      name (code letter) = other letter :=
    fun production member => rearranged.codes production (rearranged.mem_iff.mp member)
  have targets :
      second.filter (fun production => other production.target.letter = name symbol) =
      second.filter fun production => code production.target.letter = symbol := by
    apply List.filter_congr
    intro production member
    rw [← codes production member _ production.letter_target_mem]
    exact decide_eq_decide.mpr rearranged.injective.eq_iff
  rw [SignatureClass.membersFor, SignatureClass.membersFor, targets, rearranged.alike,
    List.map_map]
  apply List.map_congr_left
  intro production member
  simp [signature_rename rearranged.injective branches
    (codes production (List.mem_of_mem_filter member))]

theorem classes (rearranged : Rearranged name code other first second)
    (branches : BranchPair Symbol) (symbol : Symbol) :
    ((SignatureClass.ofProductions (Production.signature other (branches.map name))
        second).filter fun group => group.signature.target.symbol = name symbol).map
        (SignatureClass.map id Member.bare) =
      ((SignatureClass.ofProductions (Production.signature code branches) first).filter
        fun group => group.signature.target.symbol = symbol).map
        (SignatureClass.map (Signature.rename name) Member.bare) := by
  have composed : SignatureClass.map (Signature.rename name) Member.bare =
      SignatureClass.map (Signature.rename name) id ∘
        SignatureClass.map id Member.bare := by
    funext group
    simp [SignatureClass.map]
  rw [SignatureClass.filter_ofProductions, rearranged.membersFor, composed,
    ← List.map_map, SignatureClass.filter_ofProductions,
    SignatureClass.map_ofMembers (Signature.rename_injective rearranged.injective)]

end Rearranged

end Production

/-! ## Acceptance -/

namespace SignatureClass

theorem check_eq_ok_iff {tolerance : Float} {group : SignatureClass} :
    group.check tolerance = .ok () ↔
      if group.probabilities.isEmpty then group.members.length ≤ 1
      else group.members.length ≤ group.probabilities.length ∧
        (∀ member ∈ group.members, ∀ value ∈ member.production.probability, 0 ≤ value.1) ∧
        ¬ tolerance < (total (group.probabilities.map Prod.fst) - 1).abs := by
  have thrown : ∀ error : Error, (throw error : Except Error Unit) ≠ .ok () := by
    intro error impossible
    cases impossible
  have thrownAway : ∀ (error : Error) (next : Unit → Except Error Unit),
      (throw error >>= next) ≠ .ok () := by
    intro error next impossible
    cases impossible
  rw [check]
  dsimp only
  split
  · split
    · next several => simp [thrown, Nat.not_le.mpr several]
    · next single => simp [pure_eq_ok, Nat.not_lt.mp single]
  · split
    · next partly => simp [thrownAway, Nat.not_le.mpr partly]
    · next all =>
      split
      · next member found =>
          have isNegative := List.find?_some found
          rcases (Option.any_eq_true ..).mp isNegative with ⟨value, isValue, below⟩
          have fails : ¬ ∀ member ∈ group.members,
              ∀ value ∈ member.production.probability, 0 ≤ value.1 := by
            intro every
            have above := every member (List.mem_of_find?_eq_some found) value isValue
            simp [above] at below
          simp only [thrownAway, fails, false_and, and_false]
      · next found =>
          have noNegative : ∀ member ∈ group.members,
              ∀ value ∈ member.production.probability, 0 ≤ value.1 := by
            intro member isMember value isValue
            have passes :=
              List.find?_eq_none.mp (Option.eq_none_iff_forall_ne_some.mpr found)
              member isMember
            rw [Option.mem_def.mp isValue] at passes
            simpa using passes
          split
          · next outside => simp [thrown, outside]
          · next inside =>
              exact iff_of_true rfl ⟨Nat.not_lt.mp all, noNegative, inside⟩

theorem check_map {tolerance : Float} {change : Signature → Signature}
    {view : Member → Member}
    (same : ∀ member : Member, (view member).production = member.production)
    (group : SignatureClass) :
    (group.map change view).check tolerance = .ok () ↔
    group.check tolerance = .ok () := by
  have members : (group.map change view).members = group.members.map view := rfl
  have probabilities : (group.map change view).probabilities = group.probabilities := by
    simp [SignatureClass.probabilities, members, List.filterMap_map, same]
  simp only [check_eq_ok_iff, probabilities, members, List.length_map,
    List.forall_mem_map, same]

end SignatureClass

namespace RuleTable

theorem forM_eq_ok_iff {α : Type} {meaning : α → Except Error Unit} {values : List α} :
    values.forM meaning = .ok () ↔ ∀ value ∈ values, meaning value = .ok () := by
  induction values with
  | nil => exact iff_of_true rfl nofun
  | cons value rest induction =>
      rw [List.forM, bind_eq_ok, List.forall_mem_cons, ← induction]
      exact ⟨fun ⟨_, first, further⟩ => ⟨first, further⟩,
        fun ⟨first, further⟩ => ⟨(), first, further⟩⟩

variable {settings : TableSettings} {globals : List String}

theorem ofProductions_isOk_iff {code : Char → Symbol} {productions : List Production} :
    (∃ table, ofProductions settings globals code productions = .ok table) ↔
      ∀ group ∈ classes settings code productions,
        group.check settings.tolerance = .ok () := by
  rw [← forM_eq_ok_iff]
  simp only [ofProductions, bind_eq_ok, pure_eq_ok]
  constructor
  · rintro ⟨_, _, accepted, _⟩
    exact accepted
  · intro accepted
    exact ⟨_, _, accepted, rfl⟩

end RuleTable

namespace Production.Rearranged

theorem exists_ofProductions (rearranged : Rearranged name code other first second)
    {branches : BranchPair Symbol} {ignored : SymbolSet} {tolerance : Float}
    {globals : List String}
    (accepted : ∃ table, RuleTable.ofProductions ⟨branches, ignored, tolerance⟩
      globals code first = .ok table) :
    ∃ table, RuleTable.ofProductions ⟨branches.map name, ignored.map name, tolerance⟩
      globals other
      second = .ok table := by
  simp only [RuleTable.ofProductions_isOk_iff, RuleTable.classes] at accepted ⊢
  intro group isGroup
  -- The class has a class of the first list beside it, found at the number of its target.
  have sound := SignatureClass.sound_of_mem_ofProductions _ _ group isGroup
  rcases sound group.first (List.mem_cons_self ..) with ⟨isProduction, signature⟩
  have isFirst := rearranged.mem_iff.mp (List.mem_of_getElem? isProduction)
  have target : group.signature.target.symbol =
      name (code group.first.production.target.letter) := by
    rw [← signature, rearranged.codes _ isFirst _ (letter_target_mem _)]
    rfl
  have classes := rearranged.classes branches (code group.first.production.target.letter)
  have beside := congrArg (group.map id Member.bare ∈ ·) classes
  simp only [List.mem_map, List.mem_filter, decide_eq_true_eq, eq_iff_iff] at beside
  rcases beside.mp ⟨group, ⟨isGroup, target⟩, rfl⟩ with ⟨partner, ⟨isPartner, _⟩, same⟩
  have view : ∀ member : Member, member.bare.production = member.production :=
    fun _ => rfl
  rw [← SignatureClass.check_map view, ← same, SignatureClass.check_map view]
  exact accepted partner isPartner

end Production.Rearranged

/-! ## Rules of rearranged productions -/

theorem SignatureClass.bare_rule {group : SignatureClass} (number : Nat) :
    (group.rule code number).bare = (group.map id Member.bare).rule code 0 := by
  have outcomes : (group.members.map (outcome code)).map Outcome.bare =
      (group.members.map Member.bare).map (outcome code) := by
    rw [List.map_map, List.map_map]
    rfl
  simp only [rule, Rule.bare, outcomes]
  rfl

theorem SignatureClass.bare_rename_rule {group : SignatureClass}
    (codes : ∀ member ∈ group.members, ∀ letter ∈ member.production.letters,
      name (code letter) = other letter) (number : Nat) :
    ((group.rule code number).rename name).bare =
      (group.map (Signature.rename name) Member.bare).rule other 0 := by
  have outcomes :
      ((group.members.map (outcome code)).map (Outcome.rename name)).map Outcome.bare =
      (group.members.map Member.bare).map (outcome other) := by
    rw [List.map_map, List.map_map, List.map_map]
    apply List.map_congr_left
    intro member isMember
    have replacement : (member.production.replacement.map (Emission.rename code)).map
          (Emission.rename name) =
            member.production.replacement.map (Emission.rename other) := by
      rw [List.map_map]
      apply List.map_congr_left
      intro emission isEmission
      have isLetter := Production.mem_letters_of_mem_replacement isEmission
      simp [Emission.rename, codes member isMember _ isLetter]
    simp [outcome, Outcome.rename, Outcome.bare, Member.bare, replacement]
  simp only [rule, Rule.rename, Rule.bare, outcomes]
  rfl

namespace RuleTable

/-- The rules for a symbol, as they are viewed without their numbers, are made of the
classes for it and ranked among themselves. -/
theorem map_candidates {settings : TableSettings} {globals : List String}
    {productions : List Production} {table : RuleTable}
    (accepted : ofProductions settings globals code productions = .ok table)
    (view : Rule → Rule)
    (ranks : ∀ rule : Rule, (view rule).specificity = rule.specificity)
    (views : ∀ (group : SignatureClass) (id : Nat),
      view (group.rule code id) = view (group.rule code 0)) (symbol : Symbol) :
    (table.candidates symbol).map view =
      rank (((classes settings code productions).filter fun group =>
        group.signature.target.symbol = symbol).map fun group =>
        view (group.rule code 0)) := by
  rcases eq_of_ofProductions accepted with ⟨rules, ranked, _⟩
  rw [candidates, ranked, filter_rank, map_rank ranks, rules]
  congr 1
  apply map_filter_zipIdx
  · exact fun _ => rfl
  · exact fun pair => views pair.1 pair.2

theorem renames_of_ofProductions
    (rearranged : Production.Rearranged name code other first second)
    {branches : BranchPair Symbol} {ignored : SymbolSet} {tolerance : Float}
    {globals : List String} {table rearrangedTable : RuleTable}
    (accepted : ofProductions ⟨branches, ignored, tolerance⟩ globals code first =
      .ok table)
    (alsoAccepted : ofProductions ⟨branches.map name, ignored.map name, tolerance⟩
      globals other second = .ok rearrangedTable) :
    table.Renames name rearrangedTable := by
  rcases eq_of_ofProductions accepted with ⟨_, _, globals, settings⟩
  rcases eq_of_ofProductions alsoAccepted with ⟨_, _, alsoGlobals, alsoSettings⟩
  refine
    { injective := rearranged.injective
      branches := by rw [settings, alsoSettings]
      ignored := by rw [settings, alsoSettings]
      globals := by rw [globals, alsoGlobals]
      candidates := fun symbol => ?_ }
  have specificity (rule : Rule) :
      (rule.rename name).bare.specificity = rule.specificity := by
    have left : (rule.left.map (Shape.rename name)).length = rule.left.length :=
      List.length_map ..
    have right := rule.right.size_rename name
    simp only [Rule.specificity, Rule.bare, Rule.rename, left, right]
  rw [map_candidates accepted _ specificity fun _ _ => rfl,
    map_candidates alsoAccepted Rule.bare (fun _ => rfl) fun _ _ => rfl]
  congr 1
  have grouped := congrArg (List.map (SignatureClass.rule other 0))
    (rearranged.classes branches symbol)
  rw [List.map_map, List.map_map] at grouped
  refine Eq.trans ?_ (grouped.trans ?_)
  · apply List.map_congr_left
    intro group _
    exact SignatureClass.bare_rule 0
  · apply List.map_congr_left
    intro group isGroup
    symm
    apply SignatureClass.bare_rename_rule
    intro member isMember
    have sound := SignatureClass.sound_of_mem_ofProductions _ _ group
      (List.mem_of_mem_filter isGroup)
    exact rearranged.codes _ (List.mem_of_getElem? (sound member isMember).1)

end RuleTable

end

end LSystems
