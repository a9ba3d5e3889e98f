import LSystems.Proofs.Context.Around
import LSystems.Proofs.Table.Hidden
import LSystems.Proofs.Table.Origins

/-!
# Rules around a branch

A rule whose right context asks for no branches does not see complete branches beside
its position: it matches exactly if it matches where such a branch has been cut out of
the word, with the same captured values. Main statement:
`Alphabet.match?_excise_of_compileTable`.
-/

namespace LSystems

section

variable {whole cut : Scene} {first last position : Nat}

theorem Scene.Excision.mapM_parameters? (excision : whole.Excision cut first last)
    {positions : List Nat} (apart : ∀ position ∈ positions, Apart first last position) :
    (positions.map (placeExcised first last)).mapM cut.word.parameters? =
      positions.mapM whole.word.parameters? := by
  induction positions with
  | nil => rfl
  | cons position rest induction =>
      rcases List.forall_mem_cons.mp apart with ⟨isApart, restApart⟩
      rw [List.map_cons, List.mapM_cons, List.mapM_cons, excision.row_eq position isApart,
        induction restApart]

theorem Scene.Excision.flatMap_parameters (excision : whole.Excision cut first last)
    {positions : List Nat} (apart : ∀ position ∈ positions, Apart first last position) :
    (positions.map (placeExcised first last)).flatMap cut.word.parameters =
      positions.flatMap whole.word.parameters := by
  rw [List.flatMap_map]
  apply List.flatMap_congr
  exact fun position member => excision.parameters_eq position (apart position member)

namespace Rule

variable {rule : Rule}

theorem positions?_excised (excision : whole.Excision cut first last)
    (regular : whole.Regular) {tree : ContextTree} (isRight : rule.right = tree.layout)
    (straight : tree.Straight) (apart : Apart first last position) :
    rule.positions? cut (placeExcised first last position) =
        (rule.positions? whole position).map (List.map (placeExcised first last)) ∧
      ∀ found ∈ rule.positions? whole position, ∀ place ∈ found,
        Apart first last place := by
  rcases LeftContext.match?_excised excision regular rule.left apart with
    ⟨left, leftApart⟩
  rcases tree.match?_excised excision regular straight apart with ⟨right, rightApart⟩
  unfold positions?
  rw [isRight, RightContext.match?_layout, RightContext.match?_layout,
    excision.hasShape_eq apart, left, right]
  cases whole.hasShape position rule.target with
  | false => exact ⟨rfl, nofun⟩
  | true =>
      rw [if_pos rfl, if_pos rfl]
      cases isLeft : LeftContext.match? whole rule.left position with
      | none => exact ⟨rfl, nofun⟩
      | some before =>
          cases isBehind : tree.match? whole position with
          | none => exact ⟨rfl, nofun⟩
          | some behind =>
              constructor
              · simp
              · rintro found ⟨⟩ other member
                rcases List.mem_append.mp member with member | member
                · exact leftApart before isLeft other member
                · rcases List.mem_cons.mp member with rfl | member
                  · exact apart
                  · exact rightApart behind isBehind other member

end Rule

end

namespace Alphabet

/-- A rule that is written without brackets to the right of its target does not see
complete branches beside it. If the cells from an opening bracket to its partner are cut
out of a word, balanced or not, the rule matches at the new place of a position in front
of them or behind them exactly if it has matched at the position, it captures the same
values, and an attempt leaves the same in its buffer. -/
theorem match?_excise_of_compileTable {alphabet final : Alphabet}
    {branches : BranchPair Char} {ignored : SymbolSet} {tolerance : Float}
    {globals texts : List String} {table : RuleTable}
    (accepted : alphabet.compileTable branches ignored tolerance globals texts =
      (.ok table, final)) {rule : Rule} (isRule : rule ∈ table.rules) {outcome : Outcome}
    (isOutcome : outcome ∈ rule.outcomes) {production : Production}
    (isRead : production.IsRead globals branches texts outcome.source)
    (straight : ∀ symbol ∈ production.right, branches.contains symbol.letter = false)
    {word : Word} (compact : word.Compact) {hidden : SymbolSet}
    (opening : hidden.contains table.settings.branches.opening = false)
    (closing : hidden.contains table.settings.branches.closing = false) {first last : Nat}
    (joins : (BracketTable.ofSymbols table.settings.branches word.symbols).Joins
      first last)
    {position : Nat} (apart : Apart first last position) (values : List Float) :
    let whole := Scene.ofWord table.settings.branches hidden word
    let cut := Scene.ofWord table.settings.branches hidden (word.excise first last)
    let place := placeExcised first last position
    rule.match? cut values place = rule.match? whole values position ∧
      ∀ buffer, rule.attempt? cut values place buffer =
        rule.attempt? whole values position buffer := by
  intro whole cut place
  have regular : whole.Regular := Scene.regular_ofWord word opening closing
  have excision : whole.Excision cut first last := Word.excision_excise compact joins
  rcases exists_makes_of_mem_outcomes accepted isRule isOutcome with
    ⟨other, isOther, known, makes⟩
  cases isOther.unique isRead
  have straightShapes : ∀ shape ∈ production.right.map (PatternSymbol.shape final.code),
      table.settings.branches.contains shape.symbol = false := by
    intro shape isShape
    rcases List.mem_map.mp isShape with ⟨symbol, member, rfl⟩
    exact (contains_shape_of_mem_right accepted known member).trans
      (straight symbol member)
  have isRight := makes.right.trans (RightContext.ofShapes_eq_layout ..)
  rcases Rule.positions?_excised excision regular isRight
    (ContextTree.straight_ofShapes straightShapes) apart with ⟨same, allApart⟩
  constructor
  · rw [Rule.match?, Rule.match?, Rule.captures?_eq, Rule.captures?_eq, same]
    cases matched : rule.positions? whole position with
    | none => rfl
    | some positions =>
        rw [Option.map_some, Option.map_some, Option.map_some,
          excision.flatMap_parameters (allApart positions matched)]
  · intro buffer
    rw [Rule.attempt?_eq_positions, Rule.attempt?_eq_positions, same]
    cases matched : rule.positions? whole position with
    | none => rfl
    | some positions =>
        rw [Option.map_some]
        dsimp only
        rw [excision.mapM_parameters? (allApart positions matched)]

def lookingText : String :=
  "L(a) < A(x) > R(z) : a + z > g -> B"

/-- `]L(7)[R(1)[L(9)]]xA(2)[A(4)]R(3)[`, with the numbers that the letters get and nine
for `x`. -/
def branchingWord : Word :=
  .ofCells [⟨1, []⟩, ⟨2, [7]⟩, ⟨0, []⟩, ⟨4, [1]⟩, ⟨0, []⟩, ⟨2, [9]⟩, ⟨1, []⟩,
    ⟨1, []⟩, ⟨9, []⟩, ⟨3, [2]⟩, ⟨0, []⟩, ⟨3, [4]⟩, ⟨1, []⟩, ⟨4, [3]⟩, ⟨0, []⟩]

private def matchesBranching : Bool :=
  match (Production.read ["g"] ⟨'[', ']'⟩ lookingText).outcome with
  | .error _ => false
  | .ok production =>
    match (ofBranches '[' ']').compileTable ⟨'[', ']'⟩ .empty 0 ["g"] [lookingText] with
    | (.error _, _) => false
    | (.ok table, _) =>
      let brackets := BracketTable.ofSymbols table.settings.branches branchingWord.symbols
      production.right.all
        (fun symbol => !BranchPair.contains ⟨'[', ']'⟩ symbol.letter) &&
        !SymbolSet.contains ⟨[9]⟩ table.settings.branches.opening &&
        !SymbolSet.contains ⟨[9]⟩ table.settings.branches.closing &&
        brackets.partner? 2 = some 7 && brackets.partner? 7 = some 2 &&
        table.rules.any fun rule =>
          rule.outcomes.any (fun outcome => outcome.source = 0) &&
          (rule.match? (.ofWord table.settings.branches ⟨[9]⟩ branchingWord) [1] 9).isSome

set_option maxRecDepth 100000 in
private theorem matchesBranching_eq : matchesBranching = true := by
  decide +kernel

/-- The branch in front of `A` holds another branch and both symbols that the rule looks
for, and two brackets of the word have no partner. -/
theorem match?_excise_of_compileTable_branching :
    ∃ (table : RuleTable) (final : Alphabet) (rule : Rule) (production : Production)
      (captured : List Float),
      (ofBranches '[' ']').compileTable ⟨'[', ']'⟩ .empty 0 ["g"] [lookingText] =
        (.ok table, final) ∧
      rule ∈ table.rules ∧ production.IsRead ["g"] ⟨'[', ']'⟩ [lookingText] 0 ∧
      (∀ symbol ∈ production.right,
        BranchPair.contains ⟨'[', ']'⟩ symbol.letter = false) ∧
      branchingWord.Compact ∧
      (BracketTable.ofSymbols table.settings.branches branchingWord.symbols).Joins 2 7 ∧
      rule.match? (.ofWord table.settings.branches ⟨[9]⟩ branchingWord) [1] 9 =
        some captured ∧
      rule.match? (.ofWord table.settings.branches ⟨[9]⟩
        (branchingWord.excise 2 7)) [1] 3 =
        some captured := by
  have matched := matchesBranching_eq
  unfold matchesBranching at matched
  split at matched
  · contradiction
  · next production areRead =>
      split at matched
      · contradiction
      · next table final compiled =>
          simp only [Bool.and_eq_true, Bool.not_eq_true', decide_eq_true_eq,
            List.any_eq_true, List.all_eq_true] at matched
          rcases matched with
            ⟨⟨⟨⟨⟨straight, opening⟩, closing⟩, forward⟩, backward⟩, rule, isRule,
              ⟨outcome, isOutcome, source⟩, isMatch⟩
          rcases Option.isSome_iff_exists.mp isMatch with ⟨captured, isMatch⟩
          have compact : branchingWord.Compact := Word.compact_ofCells _
          have isRead : production.IsRead ["g"] ⟨'[', ']'⟩ [lookingText] 0 :=
            ⟨_, rfl, areRead⟩
          have joins : BracketTable.Joins (.ofSymbols _ branchingWord.symbols) 2 7 :=
            ⟨by decide, forward, backward⟩
          have apart : Apart 2 7 9 := .inr (by decide)
          have same :=
            (match?_excise_of_compileTable compiled isRule isOutcome (source ▸ isRead)
              straight compact opening closing joins apart [1]).1
          exact ⟨table, final, rule, production, captured, compiled, isRule, isRead,
            straight, compact, joins, isMatch, same.trans isMatch⟩

end Alphabet

end LSystems
