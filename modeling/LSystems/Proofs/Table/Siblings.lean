import LSystems.Proofs.Context.Siblings
import LSystems.Proofs.Derivation.Reached
import LSystems.Proofs.Table.Hidden

/-!
# Rules beside exchanged branches

A rule without a condition does not see in which order branches stand next to each
other: if two of them are exchanged, it matches at the new place of a position exactly
if it has matched at the position, whether the position is in one of the branches or
not. The values that it captures may be others. Main statement:
`Alphabet.isSome_match?_exchange_of_compileTable`.
-/

namespace LSystems

namespace Rule

variable {rule : Rule} {scene whole other : Scene} {place : Equiv.Perm Nat}
    {position globalCount : Nat}

theorem isSome_match?_of_unconditional (unconditional : rule.condition = none)
    (scene : Scene) (values : List Float) (position : Nat) :
    (rule.match? scene values position).isSome =
      (rule.positions? scene position).isSome := by
  rw [match?, captures?_eq]
  cases rule.positions? scene position with
  | none => rfl
  | some found => simp [Option.filter, admits, unconditional]

theorem Sound.mapM_positions? (sound : rule.Sound globalCount)
    (compact : scene.word.Compact) {found : List Nat}
    (isFound : rule.positions? scene position = some found) :
    found.mapM scene.word.parameters? = some (found.map scene.word.parameters) := by
  unfold positions? at isFound
  split at isFound
  · next has =>
      rcases Option.bind_eq_some_iff.mp isFound with ⟨left, isLeft, isFound⟩
      rcases Option.map_eq_some_iff.mp isFound with ⟨right, isRight, rfl⟩
      exact ((sound.haveShapes has isLeft isRight).parameters compact).1
  · contradiction

theorem Sound.attempt?_of_unconditional (sound : rule.Sound globalCount)
    (compact : scene.word.Compact) (unconditional : rule.condition = none)
    (values : List Float) (position : Nat) (buffer : List Float) :
    (rule.attempt? scene values position buffer).map Prod.fst =
      some (rule.positions? scene position).isSome := by
  rw [attempt?_eq_positions]
  cases isFound : rule.positions? scene position with
  | none => rfl
  | some found =>
      dsimp only
      rw [sound.mapM_positions? compact isFound]
      simp [admits?, unconditional]

private theorem Sound.isSome_positions? (sound : rule.Sound globalCount)
    (rearranged : whole.Rearranged other place)
    (noBracket : whole.branches.contains rule.target.symbol = false)
    (isFound : (rule.positions? whole position).isSome) :
    (rule.positions? other (place position)).isSome := by
  rcases sound.right with ⟨tree, isTree⟩
  unfold positions? at isFound ⊢
  rw [isTree, RightContext.match?_layout] at isFound ⊢
  split at isFound
  · next has =>
      have plain : whole.Plain position := by
        intro symbol found
        cases found.symm.trans (Scene.hasShape_iff.mp has).1
        exact noBracket
      rcases Option.isSome_iff_exists.mp isFound with ⟨found, isFound⟩
      rcases Option.bind_eq_some_iff.mp isFound with ⟨left, isLeft, isFound⟩
      rcases Option.map_eq_some_iff.mp isFound with ⟨right, isRight, _⟩
      have behind := tree.isSome_match?_rearranged rearranged plain
        (Option.isSome_iff_exists.mpr ⟨right, isRight⟩)
      rw [rearranged.hasShape_eq, if_pos has,
        LeftContext.match?_rearranged rearranged plain isLeft, Option.bind_some,
        Option.isSome_map]
      exact behind
  · contradiction

theorem Sound.isSome_positions?_rearranged (sound : rule.Sound globalCount)
    (rearranged : whole.Rearranged other place)
    (noBracket : whole.branches.contains rule.target.symbol = false) (position : Nat) :
    (rule.positions? other (place position)).isSome =
      (rule.positions? whole position).isSome := by
  rw [Bool.eq_iff_iff]
  constructor
  · intro isFound
    have back := sound.isSome_positions? rearranged.symm
      (rearranged.branches_eq ▸ noBracket) isFound
    rwa [Equiv.symm_apply_apply] at back
  · exact sound.isSome_positions? rearranged noBracket

end Rule

namespace Alphabet

/-- The order of branches that stand next to each other does not decide whether a rule
without a condition matches. If the cells from an opening bracket to its partner and
those from the next position, an opening bracket as well, to its partner are exchanged
in a word, balanced or not, then the rule matches at the new place of a position exactly
if it has matched at the position, and every attempt at either place comes to an end
that says so. -/
theorem isSome_match?_exchange_of_compileTable {alphabet final : Alphabet}
    {branches : BranchPair Char} {ignored : SymbolSet} {tolerance : Float}
    {globals texts : List String} {table : RuleTable}
    (accepted : alphabet.compileTable branches ignored tolerance globals texts =
      (.ok table, final)) {rule : Rule} (isRule : rule ∈ table.rules)
    (unconditional : rule.condition = none) {word : Word} (compact : word.Compact)
    {hidden : SymbolSet}
    (opening : hidden.contains table.settings.branches.opening = false)
    (closing : hidden.contains table.settings.branches.closing = false)
    {first middle last : Nat}
    (left : (BracketTable.ofSymbols table.settings.branches word.symbols).Joins
      first middle)
    (right : (BracketTable.ofSymbols table.settings.branches word.symbols).Joins
      (middle + 1) last)
    (position : Nat) (values : List Float) :
    let whole := Scene.ofWord table.settings.branches hidden word
    let other :=
      Scene.ofWord table.settings.branches hidden (word.exchange first middle last)
    let place := placeExchanged first middle last position
    (rule.match? other values place).isSome = (rule.match? whole values position).isSome ∧
      ∀ buffer,
        (rule.attempt? whole values position buffer).map Prod.fst =
          some (rule.match? whole values position).isSome ∧
        (rule.attempt? other values place buffer).map Prod.fst =
          some (rule.match? whole values position).isSome := by
  intro whole other place
  have sound := (sound_of_compileTable accepted).1.rule rule isRule
  have noBracket := (keepsBalance_of_compileTable accepted isRule sound.outcomes).target
  have alsoCompact : other.word.Compact := Word.compact_exchange word first middle last
  have rearranged := Word.rearranged_exchange compact opening closing left right
  have same :
      (rule.positions? other place).isSome = (rule.positions? whole position).isSome :=
    sound.isSome_positions?_rearranged rearranged noBracket position
  simp only [Rule.isSome_match?_of_unconditional unconditional, same, true_and]
  intro buffer
  constructor
  · exact sound.attempt?_of_unconditional compact unconditional values position buffer
  · rw [sound.attempt?_of_unconditional alsoCompact unconditional, same]

def branchesText : String :=
  "A(x) > [B(y)[C]][B(z)]D -> A"

/-- `]A(1)[B(2)][[B(3)x[C]]]D[`, with the numbers that the letters get and nine for `x`.
-/
def siblingsWord : Word :=
  .ofCells [⟨1, []⟩, ⟨2, [1]⟩, ⟨0, []⟩, ⟨3, [2]⟩, ⟨1, []⟩, ⟨0, []⟩, ⟨0, []⟩,
    ⟨3, [3]⟩, ⟨9, []⟩, ⟨0, []⟩, ⟨4, []⟩, ⟨1, []⟩, ⟨1, []⟩, ⟨1, []⟩, ⟨5, []⟩, ⟨0, []⟩]

private def matchesSiblings : Bool :=
  match (ofBranches '[' ']').compileTable ⟨'[', ']'⟩ .empty 0 [] [branchesText] with
  | (.error _, _) => false
  | (.ok table, _) =>
    let brackets := BracketTable.ofSymbols table.settings.branches siblingsWord.symbols
    !SymbolSet.contains ⟨[9]⟩ table.settings.branches.opening &&
      !SymbolSet.contains ⟨[9]⟩ table.settings.branches.closing &&
      brackets.partner? 2 = some 4 && brackets.partner? 4 = some 2 &&
      brackets.partner? 5 = some 13 && brackets.partner? 13 = some 5 &&
      table.rules.any fun rule => rule.condition.isNone &&
        (rule.match? (.ofWord table.settings.branches ⟨[9]⟩ siblingsWord) [] 1).isSome

set_option maxRecDepth 100000 in
private theorem matchesSiblings_eq : matchesSiblings = true := by
  decide +kernel

/-- Before the exchange the word has its branches in the other order than the rule, and
one of them stands inside a further bracket; two brackets of the word have no partner.
-/
theorem isSome_match?_exchange_of_compileTable_siblings :
    ∃ (table : RuleTable) (final : Alphabet) (rule : Rule),
      (ofBranches '[' ']').compileTable ⟨'[', ']'⟩ .empty 0 [] [branchesText] =
        (.ok table, final) ∧
      rule ∈ table.rules ∧ rule.condition = none ∧ siblingsWord.Compact ∧
      (BracketTable.ofSymbols table.settings.branches siblingsWord.symbols).Joins 2 4 ∧
      (BracketTable.ofSymbols table.settings.branches siblingsWord.symbols).Joins 5 13 ∧
      (rule.match? (.ofWord table.settings.branches ⟨[9]⟩ siblingsWord)
        [] 1).isSome = true ∧
      (rule.match? (.ofWord table.settings.branches ⟨[9]⟩ (siblingsWord.exchange 2 4 13))
        [] 1).isSome = true := by
  have matched := matchesSiblings_eq
  unfold matchesSiblings at matched
  split at matched
  · contradiction
  · next table final compiled =>
      simp only [Bool.and_eq_true, Bool.not_eq_true', decide_eq_true_eq, List.any_eq_true,
        Option.isNone_iff_eq_none] at matched
      rcases matched with
        ⟨⟨⟨⟨⟨⟨opening, closing⟩, forward⟩, backward⟩, nextForward⟩, nextBackward⟩, rule,
          isRule, unconditional, isMatch⟩
      have compact : siblingsWord.Compact := Word.compact_ofCells _
      have left : BracketTable.Joins (.ofSymbols _ siblingsWord.symbols) 2 4 :=
        ⟨by decide, forward, backward⟩
      have right : BracketTable.Joins (.ofSymbols _ siblingsWord.symbols) (4 + 1) 13 :=
        ⟨by decide, nextForward, nextBackward⟩
      have same :=
        (isSome_match?_exchange_of_compileTable compiled isRule unconditional compact
          opening closing left right 1 []).1
      exact ⟨table, final, rule, compiled, isRule, unconditional, compact, left,
        right, isMatch, same.trans isMatch⟩

end Alphabet

end LSystems
