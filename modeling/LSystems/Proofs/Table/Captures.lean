import LSystems.Proofs.Context.Places
import LSystems.Proofs.Derivation.Decide
import LSystems.Proofs.Expr.Meaning
import LSystems.Proofs.Table.Origins

/-!
# Captured values and their names

A match captures the parameters of the positions at which the symbols of the pattern
stand, one behind another; the expressions of every production that has become an
outcome of the rule find among them the values of the names that this production
declares. Main statement: `evaluate?_of_attempt?`.
-/

namespace LSystems

open Scene

namespace Production

/-- Where the symbols of a pattern stand when it is found at a position. -/
inductive Stands (production : Production) (code : Char → Symbol) (scene : Scene)
    (position : Nat) :
    List (PatternSymbol × Nat) → Prop
  | around {before behind} :
      Before scene (PatternSymbol.shape code) production.left position before →
      scene.hasShape position (production.target.shape code) = true →
      Behind scene (PatternSymbol.shape code)
        ⟨position, false⟩ [] production.right behind →
      Stands production code scene position
        (before ++ (production.target, position) :: behind)

/-- What a name stands for: a captured parameter for the one at its place among the
arguments of its symbol, where that symbol stands, and a global parameter for its value.
-/
inductive Means (globals : List String) (values : List Float) (word : Word)
    (places : List (PatternSymbol × Nat)) : String → Float → Prop
  | captured {symbol place name value} : (symbol, place) ∈ places →
      (name, value) ∈ symbol.names.zip (word.parameters place) →
      Means globals values word places name value
  | global {name value} : (name, value) ∈ globals.zip values →
      Means globals values word places name value

def entries (word : Word) (places : List (PatternSymbol × Nat)) : List (String × Float) :=
  places.flatMap fun (symbol, place) => symbol.names.zip (word.parameters place)

variable {globals : List String} {values : List Float} {branches : BranchPair Char}
  {production : Production} {alphabet : Alphabet} {scene : Scene} {position : Nat}
  {places : List (PatternSymbol × Nat)} {name : String} {value : Float}

theorem Stands.hasShape {code : Char → Symbol}
    (stands : production.Stands code scene position places) :
    ∀ entry ∈ places, scene.hasShape entry.2 (entry.1.shape code) = true := by
  rcases stands with ⟨before, has, behind⟩
  intro entry member
  rcases List.mem_append.mp member with member | member
  · exact before.hasShape entry member
  · rcases List.mem_cons.mp member with rfl | member
    · exact has
    · exact behind.hasShape entry member

theorem Stands.map_fst (stands : production.Stands alphabet.code scene position places)
    (bound : production.Bound globals branches)
    (codes : scene.branches = alphabet.codes branches)
    (known : ∀ symbol ∈ production.right, symbol.letter ∈ alphabet.letters) :
    places.map Prod.fst = production.captors branches := by
  rcases stands with ⟨before, has, behind⟩
  rw [List.map_append, List.map_cons, before.map_fst, behind.map_fst,
    bound.captors_eq, codes]
  congr 2
  apply List.filter_congr
  intro symbol member
  rw [PatternSymbol.shape, Alphabet.contains_codes branches (known symbol member)]

theorem means_iff {word : Word} :
    Means globals values word places name value ↔
      (name, value) ∈ entries word places ++ globals.zip values := by
  rw [List.mem_append, entries, List.mem_flatMap]
  constructor
  · rintro (⟨isPlace, member⟩ | member)
    · exact .inl ⟨_, isPlace, member⟩
    · exact .inr member
  · rintro (⟨⟨symbol, place⟩, isPlace, member⟩ | member)
    · exact .captured isPlace member
    · exact .global member

theorem length_parameters {code : Char → Symbol} {symbol : PatternSymbol} {place : Nat}
    (compact : scene.word.Compact)
    (has : scene.hasShape place (symbol.shape code) = true) :
    (scene.word.parameters place).length = symbol.names.length :=
  ((hasShape_iff_of_compact compact).mp has).2

theorem map_fst_entries {code : Char → Symbol} (compact : scene.word.Compact)
    (has : ∀ entry ∈ places, scene.hasShape entry.2 (entry.1.shape code) = true) :
    (entries scene.word places).map Prod.fst =
      (places.map Prod.fst).flatMap PatternSymbol.names := by
  induction places with
  | nil => rfl
  | cons entry rest induction =>
      have parts := List.forall_mem_cons.mp has
      have length := length_parameters compact parts.1
      rw [entries, List.flatMap_cons, List.map_append,
        List.map_fst_zip (Nat.le_of_eq length.symm)]
      exact congrArg (entry.1.names ++ ·) (induction parts.2)

theorem map_snd_entries {code : Char → Symbol} (compact : scene.word.Compact)
    (has : ∀ entry ∈ places, scene.hasShape entry.2 (entry.1.shape code) = true) :
    (entries scene.word places).map Prod.snd =
      (places.map Prod.snd).flatMap scene.word.parameters := by
  induction places with
  | nil => rfl
  | cons entry rest induction =>
      have parts := List.forall_mem_cons.mp has
      have length := length_parameters compact parts.1
      rw [entries, List.flatMap_cons, List.map_append,
        List.map_snd_zip (Nat.le_of_eq length)]
      exact congrArg (scene.word.parameters entry.2 ++ ·) (induction parts.2)

section Values

variable (compact : scene.word.Compact)
  (stands : production.Stands alphabet.code scene position places)
  (bound : production.Bound globals branches)
    (codes : scene.branches = alphabet.codes branches)
  (known : ∀ symbol ∈ production.right, symbol.letter ∈ alphabet.letters)
  (count : values.length = globals.length)

include compact stands bound codes known in
theorem Stands.captured_eq :
    production.captured = (entries scene.word places).map Prod.fst := by
  rw [map_fst_entries compact stands.hasShape, stands.map_fst bound codes known,
    bound.names_captors]

include compact stands bound codes known in
theorem Stands.means_iff_gives :
    Means globals values scene.word places name value ↔
      (Scope.mk production.captured globals).Gives
        ((places.map Prod.snd).flatMap scene.word.parameters) values name value := by
  have entries := List.zip_of_prod (stands.captured_eq compact bound codes known).symm
    (map_snd_entries compact stands.hasShape)
  rw [means_iff, entries]
  rfl

include compact stands bound codes known in
theorem Stands.length_captured :
    ((places.map Prod.snd).flatMap scene.word.parameters).length =
      production.captured.length := by
  rw [← map_snd_entries compact stands.hasShape,
    stands.captured_eq compact bound codes known, List.length_map, List.length_map]

include compact stands bound codes known count in
theorem Stands.existsUnique_means (isName : name ∈ production.captured ++ globals) :
    ∃! value, Means globals values scene.word places name value := by
  simp only [stands.means_iff_gives compact bound codes known]
  exact Scope.existsUnique_gives bound.names_nodup
    (stands.length_captured compact bound codes known) count isName

include compact stands bound codes known count in
theorem Stands.assigns {assignment : String → Float}
    (means : ∀ name ∈ production.captured ++ globals,
      Means globals values scene.word places name (assignment name)) :
    (Scope.mk production.captured globals).Assigns
      ((places.map Prod.snd).flatMap scene.word.parameters) values assignment := by
  simp only [stands.means_iff_gives compact bound codes known] at means
  exact Scope.assigns_of_gives bound.names_nodup
    (stands.length_captured compact bound codes known) count means

end Values

end Production

theorem Production.Makes.exists_stands {production : Production}
    {code : Char → Symbol} {rule : Rule} {outcome : Outcome} {scene : Scene}
    {position : Nat} {left right : List Nat}
    (makes : production.Makes code scene.branches rule outcome)
    (has : scene.hasShape position rule.target = true)
    (isLeft : LeftContext.match? scene rule.left position = some left)
    (isRight : rule.right.match? scene position = some right) :
    ∃ places, production.Stands code scene position places ∧
      places.map Prod.snd = left ++ position :: right := by
  rw [makes.target] at has
  rw [makes.left] at isLeft
  rw [makes.right] at isRight
  rcases LeftContext.exists_before_of_match? isLeft with ⟨front, before, rfl⟩
  rcases RightContext.exists_behind_of_match? isRight with ⟨back, behind, rfl⟩
  exact ⟨_, .around before has behind, by simp⟩

namespace Alphabet

variable {alphabet final : Alphabet} {branches : BranchPair Char} {ignored : SymbolSet}
  {tolerance : Float} {globals : List String} {texts : List String} {table : RuleTable}

/-- Every outcome of a rule comes from a production that has been read, and where the
rule matches, the captured values are those of the names that this production declares:
each name has one value, which is the parameter at its place where its symbol stands. On
them every expression of the replacement, and the condition if the outcome is the first,
has the value that it has as written. Nothing is ever read behind the end of the
captured or the global values. -/
theorem evaluate?_of_attempt?
    (accepted : alphabet.compileTable branches ignored tolerance globals texts =
      (.ok table, final))
    {rule : Rule} (isRule : rule ∈ table.rules) {outcome : Outcome}
    (isOutcome : outcome ∈ rule.outcomes) {word : Word} (compact : word.Compact)
    {values : List Float} (count : values.length = globals.length) (position : Nat)
    (buffer : List Float) :
    let scene := table.scene word
    ∃ production : Production,
      production.IsRead globals branches texts outcome.source ∧
      outcome.replacement = production.replacement.map (Emission.rename final.code) ∧
      (rule.outcomes.head? = some outcome → rule.condition = production.condition) ∧
      rule.capturedCount = production.captured.length ∧
      production.captured = production.pattern.flatMap PatternSymbol.names ∧
      (rule.attempt? scene values position buffer).isSome ∧
      ∀ captured, rule.attempt? scene values position buffer = some (true, captured) →
        captured.length = rule.capturedCount ∧
        ∃ left right places,
          LeftContext.match? scene rule.left position = some left ∧
          rule.right.match? scene position = some right ∧
          production.Stands final.code scene position places ∧
          places.map Prod.snd = left ++ position :: right ∧
          (∀ name ∈ production.captured ++ globals,
            ∃! value, Production.Means globals values word places name value) ∧
          ∀ assignment : String → Float,
            (∀ name ∈ production.captured ++ globals,
              Production.Means globals values word places name (assignment name)) →
            (∀ emission ∈ outcome.replacement, ∀ expr ∈ emission.parameters,
              expr.root.evaluate? captured values = some (expr.source.value assignment)) ∧
            (rule.outcomes.head? = some outcome → ∀ condition ∈ rule.condition,
              condition.root.evaluate? captured values =
                some (condition.source.value assignment)) := by
  intro scene
  rcases exists_makes_of_mem_outcomes accepted isRule isOutcome with
    ⟨production, isRead, known, makes⟩
  have ⟨sound, sameGlobals⟩ := sound_of_compileTable accepted
  have ruleSound : rule.Sound values.length := by
    rw [count, ← sameGlobals]
    exact sound.rule rule isRule
  have bound := isRead.bound
  refine ⟨production, isRead, makes.replacement, makes.condition, makes.capturedCount,
    bound.captured_eq, ?_, ?_⟩
  · rw [ruleSound.attempt?_eq compact]
    split
    · rfl
    · rfl
  intro captured matched
  have found := ruleSound.captures?_of_attempt? compact matched
  rcases Rule.exists_of_captures? found with ⟨has, left, right, isLeft, isRight, rfl⟩
  rcases Production.Makes.exists_stands makes has isLeft isRight with
    ⟨places, stands, arePlaces⟩
  have codes : scene.branches = final.codes branches := branches_of_compileTable accepted
  have knownRight : ∀ symbol ∈ production.right, symbol.letter ∈ final.letters := by
    intro symbol isSymbol
    apply known
    apply Production.mem_letters_of_mem_pattern
    exact List.mem_append_right _ (List.mem_cons_of_mem _ isSymbol)
  rw [← arePlaces]
  refine ⟨?_, left, right, places, isLeft, isRight, stands, arePlaces,
    fun name => stands.existsUnique_means compact bound codes knownRight count,
    fun assignment means => ?_⟩
  · rw [makes.capturedCount, stands.length_captured compact bound codes knownRight]
  · have assigns := stands.assigns compact bound codes knownRight count means
    constructor
    · intro emission isEmission expr isParameter
      rw [makes.replacement] at isEmission
      rcases List.mem_map.mp isEmission with ⟨written, isWritten, rfl⟩
      exact Scope.evaluate?_of_bind assigns
        (bound.replacement written isWritten expr isParameter)
    · intro isHead condition isCondition
      rw [makes.condition isHead] at isCondition
      exact Scope.evaluate?_of_bind assigns (bound.condition condition isCondition)

/-- Two rules that become one and name what they capture differently. -/
def renamedRules : List String :=
  ["P(0.5) | L(a) < A(x, y) > [R(z)] : g > 0 -> B(a + g, z)",
    "P(0.5) | L(b) < A(u, v) > [R(w)] : g > 0 -> C(v, b * w)"]

/-- `L(7)A(2, 1)[R(3)]`, with the numbers that the letters get. -/
def renamedWord : Word :=
  .ofCells [⟨2, [7]⟩, ⟨3, [2, 1]⟩, ⟨0, []⟩, ⟨4, [3]⟩, ⟨1, []⟩]

/-- Whether the second rule becomes an outcome of a rule that matches at the second
position. -/
private def matchesRenamed : Bool :=
  match (ofBranches '[' ']').compileTable ⟨'[', ']'⟩ .empty 0.6 ["g"] renamedRules with
  | (.error _, _) => false
  | (.ok table, _) =>
    table.rules.any fun rule => rule.outcomes.any fun outcome =>
      outcome.source = 1 &&
        ((rule.attempt? (table.scene renamedWord) [1] 1 []).map Prod.fst == some true)

set_option maxRecDepth 100000 in
private theorem matchesRenamed_eq : matchesRenamed = true := by
  decide +kernel

/-- The names of the second rule have their values where its symbols stand. -/
theorem evaluate?_of_attempt?_renamed :
    ∃ (table : RuleTable) (final : Alphabet) (rule : Rule) (outcome : Outcome)
        (production : Production) (captured : List Float)
          (places : List (PatternSymbol × Nat)),
      (ofBranches '[' ']').compileTable ⟨'[', ']'⟩ .empty 0.6 ["g"] renamedRules =
        (.ok table, final) ∧
      rule ∈ table.rules ∧ outcome ∈ rule.outcomes ∧ renamedWord.Compact ∧
      production.IsRead ["g"] ⟨'[', ']'⟩ renamedRules 1 ∧
      rule.attempt? (table.scene renamedWord) [1] 1 [] = some (true, captured) ∧
      captured.length = production.captured.length ∧
      production.Stands final.code (table.scene renamedWord) 1 places ∧
      ∀ name ∈ production.captured ++ ["g"],
        ∃! value, Production.Means ["g"] [1] renamedWord places name value := by
  have matched := matchesRenamed_eq
  unfold matchesRenamed at matched
  split at matched
  · contradiction
  · next table final compiled =>
      simp only [List.any_eq_true, Bool.and_eq_true, decide_eq_true_eq,
        beq_iff_eq] at matched
      rcases matched with ⟨rule, isRule, outcome, isOutcome, isSecond, attempted⟩
      rcases Option.map_eq_some_iff.mp attempted with ⟨⟨_, captured⟩, attempted, rfl⟩
      have compact : renamedWord.Compact := Word.compact_ofCells _
      have count : [(1 : Float)].length = ["g"].length := rfl
      rcases evaluate?_of_attempt? compiled isRule isOutcome compact count 1 [] with
        ⟨production, isRead, _, _, capturedCount, _, _, further⟩
      rcases further captured attempted with
        ⟨length, _, _, places, _, _, stands, _, unique, _⟩
      rw [isSecond] at isRead
      exact ⟨table, final, rule, outcome, production, captured, places, compiled,
        isRule, isOutcome, compact, isRead, attempted, length.trans capturedCount,
        stands, unique⟩

end Alphabet

end LSystems
