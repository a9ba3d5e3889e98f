import LSystems.Proofs.Renaming.Building

/-!
# Texts that have been read before

A grammar keeps the letters of every text that it reads, also of one that cannot be
read, so that the letters of later texts get other numbers. No run shows them. Main
statement: `Grammar.display_afterReading`.
-/

namespace LSystems.Grammar

/-- Texts that a grammar has read, and those that it could not read, do not matter to a
later run. The same texts start one, and whatever the values of the globals in each
step, it goes through generations with the same text and the same parameters at every
position, or ends in the same error. -/
theorem display_afterReading {grammar : Grammar} (made : grammar.Made)
    (texts : List String) (text : String) (seed : UInt64) :
    let held := grammar.afterReading texts
    (held.reset text seed).1.isOk = (grammar.reset text seed).1.isOk ∧
    ∀ values : List (List Float),
      (held.derive text seed values).map (held.reset text seed).2.display =
        (grammar.derive text seed values).map (grammar.reset text seed).2.display :=
  (made.alike_self.afterReading texts).display_eq made (made.afterReading texts) text seed

def watchfulRules : List String :=
  ["A(x) < B > C(y) : x > g -> B[C(x + y)]", "P(0.5) | C(x) -> A(x + g)W",
    "P(0.5) | C(x) -> C(x)"]

/-- Whether a grammar of the rules starts a run from a text, and numbers its letters
differently once it has read other texts. -/
private def renumbersWatchful : Bool :=
  match build watchfulRules ["g"] .default .default with
  | .error _ => false
  | .ok grammar =>
    (grammar.reset "VA(2)BC(1)" 7).1.isOk &&
      ((grammar.afterReading ["XY(", "Z[A]"]).reset "VA(2)BC(1)" 7).2.alphabet.code 'V' !=
        (grammar.reset "VA(2)BC(1)" 7).2.alphabet.code 'V'

set_option maxRecDepth 100000 in
private theorem renumbersWatchful_eq : renumbersWatchful = true := by
  decide +kernel

/-- One of the two texts that come first cannot be read. The letter `V` of the third
gets another number after them, and a run from it is displayed as without them. -/
theorem display_afterReading_watchful :
    ∃ (grammar held : Grammar) (last : Generation),
      build watchfulRules ["g"] .default .default = .ok grammar ∧
      held = grammar.afterReading ["XY(", "Z[A]"] ∧
      (held.reset "VA(2)BC(1)" 7).2.alphabet.code 'V' ≠
        (grammar.reset "VA(2)BC(1)" 7).2.alphabet.code 'V' ∧
      grammar.derive "VA(2)BC(1)" 7 [[1], [0], [1]] = .ok last ∧
      (held.derive "VA(2)BC(1)" 7 [[1], [0], [1]]).map
          (held.reset "VA(2)BC(1)" 7).2.display =
        .ok ((grammar.reset "VA(2)BC(1)" 7).2.display last) := by
  have renumbers := renumbersWatchful_eq
  unfold renumbersWatchful at renumbers
  split at renumbers
  · contradiction
  · next grammar built =>
      simp only [Bool.and_eq_true, bne_iff_ne] at renumbers
      rcases renumbers with ⟨starts, differ⟩
      cases started : (grammar.reset "VA(2)BC(1)" 7).1 with
      | error => simp [started, Except.isOk, Except.toBool] at starts
      | ok first =>
          have made : grammar.Made := .built built
          have counts : ∀ globals ∈ [[(1 : Float)], [0], [1]],
              globals.length = grammar.table.globals.length := by
            rw [(sound_of_build built).2]
            simp
          rcases made.exists_derive started counts with ⟨last, isLast⟩
          have alike := (display_afterReading made ["XY(", "Z[A]"] "VA(2)BC(1)" 7).2
            [[1], [0], [1]]
          rw [isLast] at alike
          exact ⟨grammar, _, last, built, rfl, differ, isLast, alike⟩

end LSystems.Grammar
