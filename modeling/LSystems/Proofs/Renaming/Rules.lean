import LSystems.Proofs.Derivation.Reached
import LSystems.Proofs.Renaming.Scenes

/-!
# Rules with other numbers

Two tables whose rules differ in the numbers of their symbols, and in the order of rules
for different symbols, step words that differ in the numbers of their symbols alike.
Main statement: `RuleTable.Renames.outcome_stepWith`.
-/

namespace LSystems

variable {name : Symbol → Symbol}

/-! ## Words -/

def Cell.rename (name : Symbol → Symbol) (cell : Cell) : Cell :=
  { cell with symbol := name cell.symbol }

def Generation.rename (name : Symbol → Symbol) (generation : Generation) : Generation :=
  { generation with word := generation.word.rename name }

namespace Word

theorem parameters_rename (name : Symbol → Symbol) (word : Word) :
    (word.rename name).parameters = word.parameters := rfl

theorem cells_rename (name : Symbol → Symbol) (word : Word) :
    (word.rename name).cells = word.cells.map (Cell.rename name) := by
  simp only [cells, rename, Array.toList_map, List.zipWith_map_left, List.map_zipWith]
  rfl

theorem Compact.rename {word : Word} (compact : word.Compact) (name : Symbol → Symbol) :
    (word.rename name).Compact :=
  ⟨compact.1.trans (size_rename name word).symm, compact.2⟩

theorem ofCells_map_rename (name : Symbol → Symbol) (cells : List Cell) :
    ofCells (cells.map (Cell.rename name)) = (ofCells cells).rename name := by
  have renamed := ofCells_cells ((compact_ofCells cells).rename name)
  rwa [cells_rename, cells_ofCells] at renamed

end Word

/-! ## Rules -/

namespace Outcome

def rename (name : Symbol → Symbol) (outcome : Outcome) : Outcome :=
  { outcome with replacement := outcome.replacement.map (Emission.rename name) }

def bare (outcome : Outcome) : Outcome :=
  { outcome with source := 0 }

end Outcome

namespace Rule

def rename (name : Symbol → Symbol) (rule : Rule) : Rule :=
  { rule with
    target := rule.target.rename name
    left := rule.left.map (Shape.rename name)
    right := rule.right.rename name
    outcomes := rule.outcomes.map (Outcome.rename name) }

/-- The rule without what no step depends on: its number and the places of its
productions. -/
def bare (rule : Rule) : Rule :=
  { rule with id := 0, outcomes := rule.outcomes.map Outcome.bare }

theorem captures?_rename (injective : Function.Injective name) (rule : Rule)
    (scene : Scene) (position : Nat) :
    (rule.rename name).captures? (scene.rename name) position =
      rule.captures? scene position := by
  simp only [captures?, rename, Scene.hasShape_rename injective,
    LeftContext.match?_rename injective, RightContext.match?_rename injective]
  rfl

theorem match?_rename (injective : Function.Injective name) (rule : Rule) (scene : Scene)
    (globals : List Float) (position : Nat) :
    (rule.rename name).match? (scene.rename name) globals position =
      rule.match? scene globals position := by
  rw [match?, match?, captures?_rename injective]
  rfl

theorem drawAt_congr {rule other : Rule}
    (probabilities : rule.outcomes.map Outcome.probability =
      other.outcomes.map Outcome.probability) : rule.drawAt = other.drawAt := by
  have length := congrArg List.length probabilities
  rw [List.length_map, List.length_map] at length
  funext seed step position
  rw [drawAt, drawAt, isStochastic, isStochastic, select, select, length, probabilities]

theorem drawAt_bare (rule : Rule) : rule.bare.drawAt = rule.drawAt :=
  drawAt_congr (List.map_map ..)

theorem drawAt_rename (name : Symbol → Symbol) (rule : Rule) :
    (rule.rename name).drawAt = rule.drawAt :=
  drawAt_congr (List.map_map ..)

end Rule

/-! ## Tables -/

theorem RuleTable.findSome?_map {view : Rule → Rule} {scene other : Scene}
    {globals : List Float} {position : Nat}
    (same : ∀ rule : Rule, (view rule).match? other globals position =
      rule.match? scene globals position) (rules : List Rule) :
    ((rules.map view).findSome? fun rule : Rule =>
        (rule.match? other globals position).map fun captured => (rule, captured)) =
      (rules.findSome? fun rule : Rule =>
        (rule.match? scene globals position).map fun captured => (rule, captured)).map
        (Prod.map view id) := by
  rw [List.findSome?_map, List.map_findSome?]
  congr 1
  funext rule
  simp only [Function.comp_apply, same, Option.map_map]
  rfl

/-- The second table is the first with other numbers. Rules for one symbol stand in the
same order, and rules for different symbols in any. -/
structure RuleTable.Renames (name : Symbol → Symbol) (first second : RuleTable) :
    Prop where
  injective : Function.Injective name
  branches : second.settings.branches = first.settings.branches.map name
  ignored : second.settings.ignored = first.settings.ignored.map name
  globals : second.globals.length = first.globals.length
  candidates : ∀ symbol, (second.candidates (name symbol)).map Rule.bare =
    (first.candidates symbol).map fun rule => (rule.rename name).bare

namespace RuleTable.Renames

variable {first second : RuleTable} {globals : List Float} {seed : UInt64}
    {step position : Nat}

theorem scene (renames : Renames name first second) (word : Word) :
    second.scene (word.rename name) = (first.scene word).rename name := by
  rw [RuleTable.scene, renames.branches, renames.ignored]
  exact Scene.ofWord_rename renames.injective ..

theorem find? (renames : Renames name first second) (scene : Scene) (globals : List Float)
    (position : Nat) :
    (second.find? (scene.rename name) globals position).map (Prod.map Rule.bare id) =
      (first.find? scene globals position).map
        (Prod.map (fun rule => (rule.rename name).bare) id) := by
  rw [RuleTable.find?, RuleTable.find?, Scene.symbol?_rename]
  cases scene.symbol? position with
  | none => rfl
  | some symbol =>
      have onSecond (rule : Rule) :
          rule.bare.match? (scene.rename name) globals position =
          rule.match? (scene.rename name) globals position := rfl
      have onFirst (rule : Rule) :
          (rule.rename name).bare.match? (scene.rename name) globals
          position = rule.match? scene globals position :=
        Rule.match?_rename renames.injective ..
      simp only [Option.map_some]
      rw [← findSome?_map onSecond, ← findSome?_map onFirst, renames.candidates]

theorem exists_of_find? (renames : Renames name first second)
    {scene : Scene} {rule : Rule} {captured : List Float}
    (found : first.find? scene globals position = some (rule, captured)) :
    ∃ other : Rule,
      second.find? (scene.rename name) globals position = some (other, captured) ∧
      other.bare = (rule.rename name).bare := by
  have same := renames.find? scene globals position
  rw [found, Option.map_some] at same
  rcases Option.map_eq_some_iff.mp same with ⟨⟨other, values⟩, isFound, equal⟩
  rcases Prod.mk.inj equal with ⟨isOther, rfl⟩
  exact ⟨other, isFound, isOther⟩

theorem becomes (renames : Renames name first second) {word : Word} {cells : List Cell}
    (becomes : first.Becomes word globals seed step position cells) :
    second.Becomes (word.rename name) globals seed step position
      (cells.map (Cell.rename name)) := by
  cases becomes with
  | @kept symbol noRule isSymbol =>
      have alsoNone :
          second.find? (second.scene (word.rename name)) globals position = none := by
        rw [renames.scene, ← Option.map_eq_none_iff, renames.find?, noRule,
          Option.map_none]
      have alsoSymbol : (word.rename name).symbols[position]? = some (name symbol) := by
        rw [Word.rename, Array.getElem?_map, isSymbol, Option.map_some]
      exact .kept alsoNone alsoSymbol
  | @rewritten rule captured outcome found drawn =>
      rw [← Rule.drawAt_eq] at drawn
      rcases renames.exists_of_find? found with ⟨other, alsoFound, same⟩
      rw [← renames.scene] at alsoFound
      have draws : other.drawAt = rule.drawAt := by
        rw [← other.drawAt_bare, same, Rule.drawAt_bare, Rule.drawAt_rename]
      have outcomes : other.outcomes.map Outcome.bare =
          (rule.outcomes.map (Outcome.rename name)).map Outcome.bare :=
        congrArg Rule.outcomes same
      have alsoDrawn := congrArg (·[rule.drawAt seed step position]?) outcomes
      simp only [List.getElem?_map, drawn, Option.map_some] at alsoDrawn
      rcases Option.map_eq_some_iff.mp alsoDrawn with ⟨made, isMade, equal⟩
      have replacement :
          made.replacement = outcome.replacement.map (Emission.rename name) :=
        congrArg Outcome.replacement equal
      rw [← draws, Rule.drawAt_eq] at isMade
      have rewritten := Becomes.rewritten alsoFound isMade
      rw [replacement, List.map_map] at rewritten
      rw [List.map_map]
      exact rewritten

theorem becomeFrom (renames : Renames name first second) {word : Word}
    {segments : List (List Cell)}
    (become : first.BecomeFrom word globals seed step 0 segments) :
    second.BecomeFrom (word.rename name) globals seed step 0
      (segments.map (List.map (Cell.rename name))) := by
  intro index cells found
  rw [List.getElem?_map] at found
  rcases Option.map_eq_some_iff.mp found with ⟨segment, isSegment, rfl⟩
  exact renames.becomes (become index segment isSegment)

theorem outcome_stepWith (renames : Renames name first second) (soundFirst : first.Sound)
    (soundSecond : second.Sound) {generation : Generation}
    (compact : generation.word.Compact) (batchSize otherSize : Nat)
    (globals : List Float) :
    (second.stepWith otherSize (generation.rename name) globals false
      fun _ => false).outcome =
      (first.stepWith batchSize generation globals false fun _ => false).outcome.map
        (Generation.rename name) := by
  rcases generation with ⟨word, seed, step⟩
  by_cases count : globals.length = first.globals.length
  · rcases exists_becomeFrom soundFirst with ⟨segments, length, become⟩
    have alsoLength : (segments.map (List.map (Cell.rename name))).length =
        (word.rename name).size := by
      rw [List.length_map, Word.size_rename]
      exact length
    have onFirst := (stepWith_eq soundFirst compact count batchSize length become).2
    have onSecond := (stepWith_eq soundSecond (compact.rename name)
      (count.trans renames.globals.symm) otherSize alsoLength
        (renames.becomeFrom become)).2
    rw [← List.map_flatten, Word.ofCells_map_rename] at onSecond
    rw [onFirst]
    exact onSecond
  · simp only [stepWith, renames.globals, if_pos count]
    rfl

end RuleTable.Renames

end LSystems
