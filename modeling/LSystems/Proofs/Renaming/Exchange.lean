import LSystems.Proofs.Renaming.Building

/-!
# The order of rules

Only the order of rules for one target matters. Two neighbours for different targets may
be exchanged, although their letters then get other numbers, and so do all rules behind
them. Main statement: `Grammar.build_exchange`.
-/

namespace LSystems

theorem forall₂_exchange {α β : Type} {relates : α → β → Prop} {before after : List α}
    {first second : α} {values : List β}
    (related : List.Forall₂ relates (before ++ first :: second :: after) values) :
    ∃ front left right back, values = front ++ left :: right :: back ∧
      relates first left ∧ relates second right ∧
      List.Forall₂ relates (before ++ second :: first :: after)
        (front ++ right :: left :: back) := by
  induction before generalizing values with
  | nil =>
      rcases List.forall₂_cons_left_iff.mp related with ⟨left, _, isLeft, rest, rfl⟩
      rcases List.forall₂_cons_left_iff.mp rest with ⟨right, back, isRight, further, rfl⟩
      exact ⟨[], left, right, back, rfl, isLeft, isRight,
        .cons isRight (.cons isLeft further)⟩
  | cons head before induction =>
      rcases List.forall₂_cons_left_iff.mp related with ⟨value, _, isValue, rest, rfl⟩
      rcases induction rest with
        ⟨front, left, right, back, rfl, isLeft, isRight, exchanged⟩
      exact ⟨value :: front, left, right, back, rfl, isLeft, isRight,
        .cons isValue exchanged⟩

namespace Grammar

variable {names : List String} {compiler : CompilerSettings} {stepping : SteppingSettings}

/-- The texts read as rules for different targets, if they can be read. -/
def TargetsDiffer (names : List String) (branches : BranchPair Char)
    (first second : String) : Prop :=
  ∀ left right, (Production.read names branches first).outcome = .ok left →
    (Production.read names branches second).outcome = .ok right →
    left.target.letter ≠ right.target.letter

theorem TargetsDiffer.symm {branches : BranchPair Char} {first second : String}
    (differ : TargetsDiffer names branches first second) :
    TargetsDiffer names branches second first :=
  fun left right isLeft isRight => (differ right left isRight isLeft).symm

theorem exists_build_exchange {first second : String}
    (differ : TargetsDiffer names compiler.branches first second)
    {before after : List String} {grammar : Grammar}
    (built : build (before ++ first :: second :: after) names compiler stepping =
      .ok grammar) :
    ∃ other,
      build (before ++ second :: first :: after) names compiler stepping = .ok other ∧
      grammar.Alike other := by
  rcases build_eq_ok_iff.mp built with
    ⟨valid, steps, ignored, productions, areIgnored, areRead, assembled⟩
  rcases forall₂_exchange (Production.readAll_eq_ok_iff.mp areRead) with
    ⟨front, left, right, back, rfl, isLeft, isRight, exchanged⟩
  have same :=
    Production.SameForTargets.exchange (differ left right isLeft isRight) front back
  have known := known_of_readLetters areIgnored
  rcases exists_assemble same known assembled with ⟨other, alsoAssembled⟩
  exact ⟨other, build_eq_ok_iff.mpr ⟨valid, steps, ignored, _, areIgnored,
    Production.readAll_eq_ok_iff.mpr exchanged, alsoAssembled⟩,
    alike_of_assemble same known assembled alsoAssembled⟩

/-- Two neighbouring rules for different targets may be exchanged. A grammar is built
from the one order if and only if it is from the other. The two grammars start runs from
the same texts, and whatever the values of the globals in each step, they go through
generations with the same text and the same parameters at every position, or end in the
same error. -/
theorem build_exchange {first second : String}
    (differ : TargetsDiffer names compiler.branches first second)
    (before after : List String) :
    let inOrder := build (before ++ first :: second :: after) names compiler stepping
    let exchanged := build (before ++ second :: first :: after) names compiler stepping
    exchanged.isOk = inOrder.isOk ∧
    ∀ grammar other, inOrder = .ok grammar → exchanged = .ok other → ∀ text seed,
      (other.reset text seed).1.isOk = (grammar.reset text seed).1.isOk ∧
      ∀ values : List (List Float),
        (other.derive text seed values).map (other.reset text seed).2.display =
          (grammar.derive text seed values).map (grammar.reset text seed).2.display := by
  intro inOrder exchanged
  constructor
  · cases isBuilt : inOrder with
    | ok grammar =>
        rcases exists_build_exchange differ isBuilt with ⟨other, alsoBuilt, _⟩
        rw [show exchanged = .ok other from alsoBuilt]
        rfl
    | error =>
        cases alsoBuilt : exchanged with
        | error => rfl
        | ok other =>
            rcases exists_build_exchange differ.symm alsoBuilt with ⟨grammar, built, _⟩
            exact nomatch isBuilt.symm.trans built
  · intro grammar other built alsoBuilt text seed
    rcases exists_build_exchange differ built with ⟨alike, isAlike, areAlike⟩
    cases alsoBuilt.symm.trans isAlike
    exact areAlike.display_eq (.built built) (.built alsoBuilt) text seed

def drawingRules (middle : List String) : List String :=
  ["P(0.5) | A(x) -> B(x)C"] ++ middle ++ ["P(0.5) | A(x) -> A(x)"]

/-- Whether texts read as rules for `B` and for `C`, and the two orders give `D`
different numbers. -/
private def exchangesNumbers (first second : String) : Bool :=
  match (Production.read ["g"] CompilerSettings.default.branches first).outcome,
    (Production.read ["g"] CompilerSettings.default.branches second).outcome,
    build (drawingRules [first, second]) ["g"] .default .default,
    build (drawingRules [second, first]) ["g"] .default .default with
  | .ok left, .ok right, .ok grammar, .ok other =>
    left.target.letter = 'B' && right.target.letter = 'C' &&
      other.alphabet.code 'D' != grammar.alphabet.code 'D' &&
      (grammar.reset "A(1)B(2)CA(3)" 7).1.isOk
  | _, _, _, _ => false

set_option maxRecDepth 100000 in
private theorem exchangesNumbers_eq :
    exchangesNumbers "B(x) > C -> D(x)A(x)" "C : g > 0 -> E[B(g)]" = true := by
  decide +kernel

/-- The two rules bring `D` and `E` into the alphabet, so that these get each other's
numbers when the rules are exchanged. Runs from `A(1)B(2)CA(3)` are displayed alike. -/
theorem build_exchange_drawing :
    ∃ (first second : String) (grammar other : Grammar) (last : Generation),
      TargetsDiffer ["g"] CompilerSettings.default.branches first second ∧
      build (drawingRules [first, second]) ["g"] .default .default = .ok grammar ∧
      build (drawingRules [second, first]) ["g"] .default .default = .ok other ∧
      other.alphabet.code 'D' ≠ grammar.alphabet.code 'D' ∧
      grammar.derive "A(1)B(2)CA(3)" 7 [[1], [0]] = .ok last ∧
      (other.derive "A(1)B(2)CA(3)" 7 [[1], [0]]).map
          (other.reset "A(1)B(2)CA(3)" 7).2.display =
        .ok ((grammar.reset "A(1)B(2)CA(3)" 7).2.display last) := by
  have numbers := exchangesNumbers_eq
  unfold exchangesNumbers at numbers
  split at numbers
  · next left right grammar other isLeft isRight built alsoBuilt =>
      simp only [Bool.and_eq_true, decide_eq_true_eq, bne_iff_ne] at numbers
      rcases numbers with ⟨⟨⟨isB, isC⟩, differ⟩, starts⟩
      have targets : TargetsDiffer ["g"] CompilerSettings.default.branches
          "B(x) > C -> D(x)A(x)" "C : g > 0 -> E[B(g)]" := by
        intro first second isFirst isSecond
        cases isLeft.symm.trans isFirst
        cases isRight.symm.trans isSecond
        rw [isB, isC]
        decide
      cases started : (grammar.reset "A(1)B(2)CA(3)" 7).1 with
      | error => simp [started, Except.isOk, Except.toBool] at starts
      | ok first =>
          have counts : ∀ globals ∈ [[(1 : Float)], [0]],
              globals.length = grammar.table.globals.length := by
            rw [(sound_of_build built).2]
            simp
          rcases (Made.built built).exists_derive started counts with ⟨last, isLast⟩
          have alike := ((build_exchange targets ["P(0.5) | A(x) -> B(x)C"]
            ["P(0.5) | A(x) -> A(x)"]).2 grammar other built alsoBuilt
              "A(1)B(2)CA(3)" 7).2
            [[1], [0]]
          rw [isLast] at alike
          exact ⟨_, _, grammar, other, last, targets, built, alsoBuilt, differ,
            isLast, alike⟩
  · contradiction

end Grammar

end LSystems
