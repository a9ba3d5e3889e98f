import LSystems.Proofs.Table.Classes

/-!
# Rules that match alike

The productions of one rule have the same pattern, but each has a condition bound to
names of its own. The rule keeps the condition of its first production. This module
tells where that makes a difference. Main statement: `match?_alone_iff_of_compileTable`.
-/

namespace LSystems

namespace Rule

theorem captures?_congr {rule other : Rule} (target : rule.target = other.target)
    (left : rule.left = other.left) (right : rule.right = other.right) (scene : Scene)
    (position : Nat) :
    rule.captures? scene position = other.captures? scene position := by
  rw [captures?, captures?, target, left, right]

theorem admits_congr {rule other : Rule} (condition : rule.condition = other.condition) :
    rule.admits = other.admits := by
  funext captured globals
  rw [admits, admits, condition]

theorem match?_isSome_iff {rule : Rule} {scene : Scene} {globals : List Float}
    {position : Nat} :
    (rule.match? scene globals position).isSome ↔
      ∃ captured, rule.captures? scene position = some captured ∧
        rule.admits captured globals = true := by
  rw [match?, Option.isSome_iff_exists]
  simp only [Option.filter_eq_some_iff]

end Rule

/-- The rule that a production makes up by itself. -/
def Production.alone (code : Char → Symbol) (branches : BranchPair Symbol)
    (production : Production) : Rule :=
  SignatureClass.rule code 0 ⟨production.signature code branches, ⟨0, production⟩, []⟩

def Production.IsRead (globals : List String) (branches : BranchPair Char)
    (texts : List String) (place : Nat) (production : Production) : Prop :=
  ∃ text, texts[place]? = some text ∧
    (read globals branches text).outcome = .ok production

namespace Production

variable {globals : List String} {branches : BranchPair Char}
    {texts : List String} {place : Nat}
  {left right : Production}

theorem isRead_of_forall₂ {productions : List Production}
    (areRead : List.Forall₂ (fun text production =>
      (read globals branches text).outcome = .ok production) texts productions)
    (found : productions[place]? = some left) :
    left.IsRead globals branches texts place := by
  obtain ⟨inside, rfl⟩ := List.getElem?_eq_some_iff.mp found
  have alsoInside : place < texts.length := areRead.length_eq ▸ inside
  exact ⟨texts[place], List.getElem?_eq_getElem alsoInside, areRead.get alsoInside inside⟩

theorem IsRead.bound (isRead : left.IsRead globals branches texts place) :
    left.Bound globals branches := by
  obtain ⟨_, _, done⟩ := isRead
  exact bound_of_read done

theorem IsRead.unique (isLeft : left.IsRead globals branches texts place)
    (isRight : right.IsRead globals branches texts place) : left = right := by
  obtain ⟨text, isText, leftDone⟩ := isLeft
  obtain ⟨other, isOther, rightDone⟩ := isRight
  obtain rfl := Option.some.inj (isText.symm.trans isOther)
  exact Except.ok.inj (leftDone.symm.trans rightDone)

theorem Bound.condition_eq (leftBound : left.Bound globals branches)
    (rightBound : right.Bound globals branches) (names : left.captured = right.captured)
    (sources :
      left.condition.map BoundExpr.source = right.condition.map BoundExpr.source) :
    left.condition = right.condition := by
  cases isLeft : left.condition with
  | none =>
      rw [isLeft] at sources
      exact (Option.map_eq_none_iff.mp sources.symm).symm
  | some first =>
      rw [isLeft] at sources
      obtain ⟨second, isRight, source⟩ := Option.map_eq_some_iff.mp sources.symm
      have firstBound := leftBound.condition first isLeft
      have secondBound := rightBound.condition second isRight
      rw [source, ← names, firstBound] at secondBound
      rw [isRight, Except.ok.inj secondBound]

end Production

namespace SignatureClass

variable {code : Char → Symbol} {branches : BranchPair Symbol}
    {productions : List Production}
  {group : SignatureClass}

theorem Sound.captures?_alone
    (sound : group.Sound (Production.signature code branches) productions)
    {member : Member} (isMember : member ∈ group.members) (id : Nat) (scene : Scene)
    (position : Nat) :
    (member.production.alone code branches).captures? scene position =
      (group.rule code id).captures? scene position := by
  have same := (sound member isMember).2
  exact Rule.captures?_congr (congrArg Signature.target same)
    (congrArg Signature.left same)
    (congrArg Signature.right same) scene position

theorem Sound.match?_first
    (sound : group.Sound (Production.signature code branches) productions) (id : Nat)
    (scene : Scene) (globals : List Float) (position : Nat) :
    (group.rule code id).match? scene globals position =
      (group.first.production.alone code branches).match? scene globals position := by
  have same := sound.captures?_alone (List.mem_cons_self ..) id scene position
  rw [Rule.match?, Rule.match?, same]
  rfl

end SignatureClass

namespace Alphabet

variable {alphabet final : Alphabet} {branches : BranchPair Char} {ignored : SymbolSet}
  {tolerance : Float} {globals : List String} {texts : List String} {table : RuleTable}

/-- Two productions that have become outcomes of one rule. At a position they match
alike, each taken alone, exactly if their own conditions say the same of what the
pattern captures there; the rule itself matches as its first production does. They match
alike everywhere if both name the captured parameters alike and have the same condition.
-/
theorem match?_alone_iff_of_compileTable
    (accepted : alphabet.compileTable branches ignored tolerance globals texts =
      (.ok table, final))
    {rule : Rule} (isRule : rule ∈ table.rules) {first second : Outcome}
    (isFirst : first ∈ rule.outcomes) (isSecond : second ∈ rule.outcomes) :
    ∃ left right leader : Production,
      left.IsRead globals branches texts first.source ∧
      right.IsRead globals branches texts second.source ∧
      (∃ outcome, rule.outcomes.head? = some outcome ∧
        leader.IsRead globals branches texts outcome.source) ∧
      let own := Production.alone final.code table.settings.branches
      (∀ (word : Word) (values : List Float) (position : Nat),
        let scene := table.scene word
        ((((own left).match? scene values position).isSome ↔
            ((own right).match? scene values position).isSome) ↔
          ∀ captured, rule.captures? scene position = some captured →
            (own left).admits captured values = (own right).admits captured values) ∧
        rule.match? scene values position = (own leader).match? scene values position) ∧
      (left.captured = right.captured →
        left.condition.map BoundExpr.source = right.condition.map BoundExpr.source →
        (own left).match? = (own right).match?) := by
  obtain ⟨productions, areRead, _, accepted⟩ :=
    exists_productions_of_compileTable accepted
  have settings : table.settings.branches = final.codes branches := by
    rw [(RuleTable.eq_of_ofProductions accepted).2.2.2]
  obtain ⟨group, _, sound, isGroup⟩ := RuleTable.exists_class_of_mem_rules accepted isRule
  have isRead : ∀ member ∈ group.members,
      member.production.IsRead globals branches texts member.source :=
    fun member isMember => Production.isRead_of_forall₂ areRead (sound member isMember).1
  have outcomes :
      rule.outcomes = group.members.map (SignatureClass.outcome final.code) := by
    rw [isGroup]
    rfl
  rw [outcomes] at isFirst isSecond
  obtain ⟨firstMember, firstInside, rfl⟩ := List.mem_map.mp isFirst
  obtain ⟨secondMember, secondInside, rfl⟩ := List.mem_map.mp isSecond
  refine ⟨firstMember.production, secondMember.production, group.first.production,
    isRead _ firstInside, isRead _ secondInside,
    ⟨_, by rw [outcomes]; rfl, isRead _ (List.mem_cons_self ..)⟩, ?_⟩
  intro own
  rw [← settings] at sound
  refine ⟨fun word values position => ⟨?_, ?_⟩, fun names conditions => ?_⟩
  · have onFirst := sound.captures?_alone firstInside rule.id (table.scene word) position
    have onSecond :=
      sound.captures?_alone secondInside rule.id (table.scene word) position
    rw [← isGroup] at onFirst onSecond
    rw [Rule.match?_isSome_iff, Rule.match?_isSome_iff, onFirst, onSecond]
    cases rule.captures? (table.scene word) position with
    | none => simp
    | some captured =>
        simp only [Option.some.injEq, exists_eq_left', forall_eq']
        exact Bool.eq_iff_iff.symm
  · rw [isGroup]
    exact sound.match?_first rule.id (table.scene word) values position
  · have firstBound := (isRead _ firstInside).bound
    have secondBound := (isRead _ secondInside).bound
    have same := firstBound.condition_eq secondBound names conditions
    funext scene values position
    have onFirst := sound.captures?_alone firstInside rule.id scene position
    have onSecond := sound.captures?_alone secondInside rule.id scene position
    have admits :
        (own firstMember.production).admits = (own secondMember.production).admits :=
      Rule.admits_congr same
    rw [Rule.match?, Rule.match?, onFirst, onSecond, admits]

/-- Two rules whose conditions read alike but compare the captured values the other way
round. -/
def swappedRules : List String :=
  ["P(0.5) | A(x, y) : x > y -> B", "P(0.5) | A(y, x) : x > y -> C"]

/-- Whether the rules make up one rule of a table, and on `A(2, 1)` only the first of
them matches. -/
private def differsOnSwapped : Bool :=
  match (ofBranches '[' ']').compileTable ⟨'[', ']'⟩ .empty 0.6 [] swappedRules with
  | (.error _, _) => false
  | (.ok table, final) =>
    match (Production.readAll [] ⟨'[', ']'⟩ 0 swappedRules).outcome with
    | .ok [left, right] =>
      let scene := table.scene (.ofCells [⟨2, [2, 1]⟩])
      let own := Production.alone final.code table.settings.branches
      table.rules.any (fun rule => rule.outcomes.map Outcome.source = [0, 1]) &&
        (((own left).match? scene [] 0).isSome && !((own right).match? scene [] 0).isSome)
    | _ => false

set_option maxRecDepth 100000 in
private theorem differsOnSwapped_eq : differsOnSwapped = true := by
  decide +kernel

private theorem exists_swapped :
    ∃ (table : RuleTable) (final : Alphabet) (rule : Rule) (left right : Production),
      (ofBranches '[' ']').compileTable ⟨'[', ']'⟩ .empty 0.6 [] swappedRules =
        (.ok table, final) ∧
      rule ∈ table.rules ∧ rule.outcomes.map Outcome.source = [0, 1] ∧
      left.IsRead [] ⟨'[', ']'⟩ swappedRules 0 ∧
      right.IsRead [] ⟨'[', ']'⟩ swappedRules 1 ∧
      let scene := table.scene (.ofCells [⟨2, [2, 1]⟩])
      let own := Production.alone final.code table.settings.branches
      ((own left).match? scene [] 0).isSome = true ∧
        ((own right).match? scene [] 0).isSome = false := by
  have differs := differsOnSwapped_eq
  unfold differsOnSwapped at differs
  split at differs
  · contradiction
  · next table final compiled =>
      split at differs
      · next left right done =>
          simp only [Bool.and_eq_true, Bool.not_eq_true', List.any_eq_true,
            decide_eq_true_eq]
            at differs
          obtain ⟨⟨rule, isRule, sources⟩, first, second⟩ := differs
          have areRead := Production.forall₂_of_readAll done
          exact ⟨table, final, rule, left, right, compiled, isRule, sources,
            Production.isRead_of_forall₂ areRead rfl,
            Production.isRead_of_forall₂ areRead rfl,
            first, second⟩
      · contradiction

/-- Productions of one rule need not match alike. -/
theorem not_forall_match?_alone :
    ¬ ∀ (alphabet final : Alphabet) (branches : BranchPair Char) (ignored : SymbolSet)
        (tolerance : Float) (globals texts : List String) (table : RuleTable),
      alphabet.compileTable branches ignored tolerance globals texts = (.ok table,
        final) →
      ∀ rule ∈ table.rules, ∀ first ∈ rule.outcomes, ∀ second ∈ rule.outcomes,
      ∀ left right : Production,
        left.IsRead globals branches texts first.source →
        right.IsRead globals branches texts second.source →
      ∀ (word : Word) (values : List Float) (position : Nat),
        let own := Production.alone final.code table.settings.branches
        (((own left).match? (table.scene word) values position).isSome ↔
          ((own right).match? (table.scene word) values position).isSome) := by
  intro claim
  obtain ⟨table, final, rule, left, right, accepted, isRule, sources, isLeft,
    isRight, matched, failed⟩ := exists_swapped
  obtain ⟨first, firstInside, isFirst⟩ :=
    List.mem_map.mp (sources ▸ List.mem_cons_self ..)
  obtain ⟨second, secondInside, isSecond⟩ :=
    List.mem_map.mp (sources ▸ List.mem_cons_of_mem _ (List.mem_cons_self ..))
  rw [← isFirst] at isLeft
  rw [← isSecond] at isRight
  have alike :=
    claim _ _ _ _ _ _ _ _ accepted rule isRule first firstInside second secondInside
    left right isLeft isRight (.ofCells [⟨2, [2, 1]⟩]) [] 0
  exact absurd (alike.mp matched) (by rw [failed]; exact Bool.false_ne_true)

/-- The conditions of the two rules disagree on what is captured at `A(2, 1)`. -/
theorem match?_alone_iff_of_compileTable_swapped :
    ∃ (table : RuleTable) (final : Alphabet) (rule : Rule) (left right : Production)
        (captured : List Float),
      (ofBranches '[' ']').compileTable ⟨'[', ']'⟩ .empty 0.6 [] swappedRules =
        (.ok table, final) ∧
      rule ∈ table.rules ∧
      left.IsRead [] ⟨'[', ']'⟩ swappedRules 0 ∧
      right.IsRead [] ⟨'[', ']'⟩ swappedRules 1 ∧
      let own := Production.alone final.code table.settings.branches
      rule.captures? (table.scene (.ofCells [⟨2, [2, 1]⟩])) 0 = some captured ∧
        (own left).admits captured [] ≠ (own right).admits captured [] := by
  obtain ⟨table, final, rule, left, right, accepted, isRule, sources, isLeft,
    isRight, matched, failed⟩ := exists_swapped
  obtain ⟨first, firstInside, isFirst⟩ :=
    List.mem_map.mp (sources ▸ List.mem_cons_self ..)
  obtain ⟨second, secondInside, isSecond⟩ :=
    List.mem_map.mp (sources ▸ List.mem_cons_of_mem _ (List.mem_cons_self ..))
  obtain ⟨alsoLeft, alsoRight, _, leftRead, rightRead, _, exactly, _⟩ :=
    match?_alone_iff_of_compileTable accepted isRule firstInside secondInside
  rw [isFirst] at leftRead
  rw [isSecond] at rightRead
  obtain rfl := isLeft.unique leftRead
  obtain rfl := isRight.unique rightRead
  have differ : ¬ ∀ captured,
      rule.captures? (table.scene (.ofCells [⟨2, [2, 1]⟩])) 0 = some captured → _ :=
        fun agree =>
    Bool.false_ne_true (failed ▸ ((exactly _ [] 0).1.mpr agree).mp matched)
  obtain ⟨captured, differ⟩ := Classical.not_forall.mp differ
  obtain ⟨found, differ⟩ := Classical.not_imp.mp differ
  exact ⟨table, final, rule, left, right, captured, accepted, isRule, isLeft,
    isRight, found, differ⟩

end Alphabet

end LSystems
