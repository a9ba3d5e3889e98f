import LSystems.Proofs.Context.Hidden
import LSystems.Proofs.Derivation.Decide

/-!
# Rules among hidden symbols

A rule matches at a position exactly if it matches where the ignored symbols have been
deleted, with the same captured values, and so does every attempt on a buffer. Main
statement: `Alphabet.match?_without_of_compileTable`.
-/

namespace LSystems

section

variable {whole pruned : Scene} {place : Nat → Nat} {position : Nat}
    {positions : List Nat}

theorem Scene.mapM_parameters? {scene : Scene} (compact : scene.word.Compact)
    (seen : ∀ position ∈ positions, scene.Seen position) :
    positions.mapM scene.word.parameters? =
      some (positions.map scene.word.parameters) := by
  apply mapM_eq_some
  intro position member
  rcases seen position member with ⟨symbol, found, _⟩
  rcases compact.at_position (Scene.lt_size found) with ⟨_, _, _, _, _, parameters, _⟩
  exact parameters

theorem Scene.Pruning.seen_place (pruning : whole.Pruning pruned place)
    (seen : ∀ position ∈ positions, whole.Seen position) :
    ∀ position ∈ positions.map place, pruned.Seen position := by
  intro position member
  rcases List.mem_map.mp member with ⟨source, isSource, rfl⟩
  rcases seen source isSource with ⟨symbol, found, _⟩
  have isSymbol := (pruning.symbol_eq source (seen source isSource)).trans found
  exact ⟨symbol, isSymbol, pruning.none_ignored symbol⟩

theorem Scene.Pruning.map_parameters (pruning : whole.Pruning pruned place)
    (seen : ∀ position ∈ positions, whole.Seen position) :
    (positions.map place).map pruned.word.parameters =
      positions.map whole.word.parameters := by
  rw [List.map_map]
  exact List.map_congr_left fun position member =>
    pruning.parameters_eq position (seen position member)

namespace Rule

variable {rule : Rule} {globalCount : Nat}

/-- The positions of both contexts and of the target, if the pattern is found. -/
def positions? (rule : Rule) (scene : Scene) (position : Nat) : Option (List Nat) :=
  if scene.hasShape position rule.target then
    (LeftContext.match? scene rule.left position).bind fun left =>
      (rule.right.match? scene position).map fun right => left ++ position :: right
  else none

theorem captures?_eq (rule : Rule) (scene : Scene) (position : Nat) :
    rule.captures? scene position =
      (rule.positions? scene position).map fun found =>
        found.flatMap scene.word.parameters := by
  unfold captures? positions?
  split
  · cases LeftContext.match? scene rule.left position with
    | none => rfl
    | some left =>
        rw [Option.bind_some, Option.map_map]
        rfl
  · rfl

theorem attempt?_eq_positions (rule : Rule) (scene : Scene) (globals : List Float)
    (position : Nat) (buffer : List Float) :
    rule.attempt? scene globals position buffer =
      match rule.positions? scene position with
      | none => some (false, buffer)
      | some found => do
        let rows ← found.mapM scene.word.parameters?
        let isAdmitted ← rule.admits? rows.flatten globals
        return (isAdmitted, rows.flatten) := by
  unfold attempt? positions?
  split
  · cases LeftContext.match? scene rule.left position with
    | none => rfl
    | some left =>
        cases rule.right.match? scene position with
        | none => rfl
        | some right => rfl
  · rfl

theorem Sound.positions?_pruned (sound : rule.Sound globalCount)
    (pruning : whole.Pruning pruned place) (regular : whole.Regular)
    (seen : whole.Seen position) :
    rule.positions? pruned (place position) =
        (rule.positions? whole position).map (List.map place) ∧
      ∀ found ∈ rule.positions? whole position, ∀ position ∈ found,
        whole.Seen position := by
  rcases sound.right with ⟨tree, isRight⟩
  have inside : position ≤ whole.word.size := by
    rcases seen with ⟨symbol, found, _⟩
    exact Nat.le_of_lt (Scene.lt_size found)
  have left := LeftContext.match?_pruned pruning regular rule.left inside
  have right := (tree.pruned_of_pruning pruning regular).match? pruning regular seen
  unfold positions?
  rw [isRight, RightContext.match?_layout, RightContext.match?_layout,
    pruning.hasShape_eq seen, left, right]
  cases whole.hasShape position rule.target with
  | false => exact ⟨rfl, nofun⟩
  | true =>
      rw [if_pos rfl, if_pos rfl]
      cases isLeft : LeftContext.match? whole rule.left position with
      | none => exact ⟨rfl, nofun⟩
      | some before =>
          cases isBehind : tree.match? whole position with
          | none => exact ⟨rfl, nofun⟩
          | some behind =>
              constructor
              · simp
              · rintro found ⟨⟩ other member
                rcases List.mem_append.mp member with member | member
                · exact LeftContext.seen_of_match? regular isLeft other member
                · rcases List.mem_cons.mp member with rfl | member
                  · exact seen
                  · exact (tree.findsSeen regular).match? regular isBehind other member

end Rule

end

namespace Alphabet

/-- Symbols that are ignored and are no brackets might as well not be there. In every
word a rule matches at a position with another symbol exactly if it matches at the place
of the position in the word without the ignored symbols, where nothing is ignored; it
captures the same values, and an attempt leaves the same in its buffer. -/
theorem match?_without_of_compileTable {alphabet final : Alphabet}
    {branches : BranchPair Char} {ignored : SymbolSet} {tolerance : Float}
    {globals texts : List String} {table : RuleTable}
    (accepted : alphabet.compileTable branches ignored tolerance globals texts =
      (.ok table, final)) {rule : Rule} (isRule : rule ∈ table.rules) {word : Word}
    (compact : word.Compact) {hidden : SymbolSet}
    (opening : hidden.contains table.settings.branches.opening = false)
    (closing : hidden.contains table.settings.branches.closing = false) {position : Nat}
    {symbol : Symbol} (found : word.symbols[position]? = some symbol)
    (seen : hidden.contains symbol = false) (values : List Float) :
    let whole := Scene.ofWord table.settings.branches hidden word
    let pruned := Scene.ofWord table.settings.branches .empty (word.without hidden)
    let place := word.placeWithout hidden position
    rule.match? pruned values place = rule.match? whole values position ∧
      ∀ buffer, rule.attempt? pruned values place buffer =
        rule.attempt? whole values position buffer := by
  intro whole pruned place
  have sound := (sound_of_compileTable accepted).1.rule rule isRule
  have regular : whole.Regular := Scene.regular_ofWord word opening closing
  have pruning : whole.Pruning pruned (word.placeWithout hidden) :=
    Word.pruning_without compact opening closing
  have isSeen : whole.Seen position := ⟨symbol, found, seen⟩
  rcases sound.positions?_pruned pruning regular isSeen with ⟨same, allSeen⟩
  have alsoCompact : pruned.word.Compact := Word.compact_without word hidden
  constructor
  · rw [Rule.match?, Rule.match?, Rule.captures?_eq, Rule.captures?_eq, same]
    cases matched : rule.positions? whole position with
    | none => rfl
    | some positions =>
        rw [Option.map_some, Option.map_some, Option.map_some, List.flatMap_def,
          List.flatMap_def, pruning.map_parameters (allSeen positions matched)]
  · intro buffer
    rw [Rule.attempt?_eq_positions, Rule.attempt?_eq_positions, same]
    cases matched : rule.positions? whole position with
    | none => rfl
    | some positions =>
        have positionsSeen := allSeen positions matched
        rw [Option.map_some]
        dsimp only
        rw [Scene.mapM_parameters? alsoCompact (pruning.seen_place positionsSeen),
          Scene.mapM_parameters? compact positionsSeen,
          pruning.map_parameters positionsSeen]

/-- `x]L(7)xA(2)x[xR(3)x]xS[`, with the numbers that the letters get and nine for `x`. -/
def scatteredWord : Word :=
  .ofCells [⟨9, []⟩, ⟨1, []⟩, ⟨2, [7]⟩, ⟨9, []⟩, ⟨3, [2]⟩, ⟨9, []⟩, ⟨0, []⟩, ⟨9, []⟩,
    ⟨4, [3]⟩, ⟨9, []⟩, ⟨1, []⟩, ⟨9, []⟩, ⟨5, []⟩, ⟨0, []⟩]

private def matchesScattered : Bool :=
  match (ofBranches '[' ']').compileTable ⟨'[', ']'⟩ .empty 0 ["g"]
      ["L(a) < A(x) > [R(z)]S : a + z > g -> B"] with
  | (.error _, _) => false
  | (.ok table, _) =>
    !SymbolSet.contains ⟨[9]⟩ table.settings.branches.opening &&
      !SymbolSet.contains ⟨[9]⟩ table.settings.branches.closing &&
      table.rules.any fun rule =>
        (rule.match? (.ofWord table.settings.branches ⟨[9]⟩ scatteredWord) [1] 4).isSome

set_option maxRecDepth 100000 in
private theorem matchesScattered_eq : matchesScattered = true := by
  decide +kernel

/-- Hidden symbols stand on both sides of every bracket, and two brackets have no
partner. -/
theorem match?_without_of_compileTable_scattered :
    ∃ (table : RuleTable) (final : Alphabet) (rule : Rule) (captured : List Float),
      (ofBranches '[' ']').compileTable ⟨'[', ']'⟩ .empty 0 ["g"]
        ["L(a) < A(x) > [R(z)]S : a + z > g -> B"] = (.ok table, final) ∧
      rule ∈ table.rules ∧ scatteredWord.Compact ∧
      SymbolSet.contains ⟨[9]⟩ table.settings.branches.opening = false ∧
      SymbolSet.contains ⟨[9]⟩ table.settings.branches.closing = false ∧
      scatteredWord.symbols[4]? = some 3 ∧ SymbolSet.contains ⟨[9]⟩ 3 = false ∧
      rule.match? (.ofWord table.settings.branches ⟨[9]⟩ scatteredWord) [1] 4 =
        some captured ∧
      rule.match? (.ofWord table.settings.branches .empty (scatteredWord.without ⟨[9]⟩))
        [1]
        (scatteredWord.placeWithout ⟨[9]⟩ 4) = some captured := by
  have matched := matchesScattered_eq
  unfold matchesScattered at matched
  split at matched
  · contradiction
  · next table final compiled =>
      simp only [Bool.and_eq_true, Bool.not_eq_true', List.any_eq_true] at matched
      rcases matched with ⟨⟨opening, closing⟩, rule, isRule, isMatch⟩
      rcases Option.isSome_iff_exists.mp isMatch with ⟨captured, isMatch⟩
      have compact : scatteredWord.Compact := Word.compact_ofCells _
      have found : scatteredWord.symbols[4]? = some 3 := rfl
      have seen : SymbolSet.contains ⟨[9]⟩ 3 = false := rfl
      have same :=
        (match?_without_of_compileTable compiled isRule compact opening closing
          found seen [1]).1
      exact ⟨table, final, rule, captured, compiled, isRule, compact, opening,
        closing, found, seen, isMatch, same.trans isMatch⟩

end Alphabet

end LSystems
