import LSystems.Proofs.Brackets
import LSystems.Context.Left

/-!
# Passages

A passage leads through a word over ignored symbols, around complete branches and into
branches; the walks of `Scene` follow passages up to a visible symbol. Read from its end
a passage is determined by the symbols in front of it, so that whatever leads to one
place lies on one line. This is what makes the walks forward inverse to the walk back.
-/

namespace LSystems.Scene

/-- The bracket table is that of the word, and brackets are not ignored. -/
structure Regular (scene : Scene) : Prop where
  table_eq : scene.table = .ofSymbols scene.branches scene.word.symbols
  opening_seen : scene.ignored.contains scene.branches.opening = false
  closing_seen : scene.ignored.contains scene.branches.closing = false

theorem regular_ofWord {branches : BranchPair Symbol} {ignored : SymbolSet} (word : Word)
    (opening : ignored.contains branches.opening = false)
    (closing : ignored.contains branches.closing = false) :
    (ofWord branches ignored word).Regular :=
  ⟨rfl, opening, closing⟩

/-- A symbol stands at the position, and it is neither a bracket nor ignored. -/
def Visible (scene : Scene) (position : Nat) : Prop :=
  ∃ symbol, scene.symbol? position = some symbol ∧ scene.ignored.contains symbol = false ∧
    scene.branches.contains symbol = false

/-- From the place in front of `start` to the place in front of `stop`, with as many
branches entered and not left as `entered` says. -/
inductive Passage (scene : Scene) (start : Nat) : (entered stop : Nat) → Prop
  | here : Passage scene start 0 start
  | ignored {entered stop symbol} : Passage scene start entered stop →
      scene.symbol? stop = some symbol → scene.ignored.contains symbol = true →
      Passage scene start entered (stop + 1)
  | around {entered stop closing} : Passage scene start entered stop →
      scene.table.Joins stop closing → Passage scene start entered (closing + 1)
  | into {entered stop} : Passage scene start entered stop →
      scene.symbol? stop = some scene.branches.opening →
      Passage scene start (entered + 1) (stop + 1)

variable {scene : Scene}

/-! ## Brackets of a scene -/

namespace Regular

variable {first second : Nat} {symbol : Symbol}

theorem opening_of_joins (regular : scene.Regular)
    (joins : scene.table.Joins first second) :
    scene.symbol? first = some scene.branches.opening := by
  rw [regular.table_eq] at joins
  exact joins.kinds.1

theorem closing_of_joins (regular : scene.Regular)
    (joins : scene.table.Joins first second) :
    scene.symbol? second = some scene.branches.closing := by
  rw [regular.table_eq] at joins
  exact joins.kinds.2.1

theorem not_opening_of_joins (regular : scene.Regular)
    (joins : scene.table.Joins first second) :
    scene.symbol? second ≠ some scene.branches.opening := by
  rw [regular.closing_of_joins joins]
  rw [regular.table_eq] at joins
  exact fun equal => joins.kinds.2.2 (Option.some.inj equal)

theorem not_bracket_of_ignored (regular : scene.Regular)
    (isIgnored : scene.ignored.contains symbol = true) :
    scene.branches.contains symbol = false := by
  rw [BranchPair.contains, Bool.or_eq_false_iff, decide_eq_false_iff_not,
    decide_eq_false_iff_not]
  constructor
  · rintro rfl
    cases isIgnored.symm.trans regular.opening_seen
  · rintro rfl
    cases isIgnored.symm.trans regular.closing_seen

theorem not_opening_of_ignored (regular : scene.Regular)
    (found : scene.symbol? first = some symbol)
    (isIgnored : scene.ignored.contains symbol = true) :
    scene.symbol? first ≠ some scene.branches.opening := by
  intro isOpening
  rw [found] at isOpening
  obtain rfl := Option.some.inj isOpening
  simp [regular.opening_seen] at isIgnored

theorem not_joins_of_ignored (regular : scene.Regular)
    (found : scene.symbol? second = some symbol)
    (isIgnored : scene.ignored.contains symbol = true) :
    ¬ scene.table.Joins first second := by
  intro joins
  rw [regular.closing_of_joins joins] at found
  obtain rfl := Option.some.inj found
  simp [regular.closing_seen] at isIgnored

theorem behindBranch?_eq_some_iff (regular : scene.Regular) {position behind : Nat} :
    scene.behindBranch? position = some behind ↔
      ∃ closing, scene.table.Joins position closing ∧ behind = closing + 1 := by
  unfold behindBranch?
  constructor
  · intro found
    split at found
    · next partner isPartner =>
        split at found
        · next later =>
            refine ⟨partner, ?_, by simpa using found.symm⟩
            rw [regular.table_eq] at isPartner ⊢
            rcases BracketTable.joins_of_partner? isPartner with joins | joins
            · exact joins
            · exact absurd joins.lt (by omega)
        · contradiction
    · contradiction
  · rintro ⟨closing, joins, rfl⟩
    simp [joins.forward, joins.lt]

theorem branchStart?_eq_some_iff (regular : scene.Regular) {position start : Nat} :
    scene.branchStart? position = some start ↔ scene.table.Joins start position := by
  unfold branchStart?
  constructor
  · intro found
    split at found
    · next partner isPartner =>
        split at found
        · next earlier =>
            injection found with equal
            subst equal
            rw [regular.table_eq] at isPartner ⊢
            rcases BracketTable.joins_of_partner? isPartner with joins | joins
            · exact absurd joins.lt (by omega)
            · exact joins
        · contradiction
    · contradiction
  · intro joins
    simp [joins.backward, joins.lt]

end Regular

/-! ## Passages end to end -/

namespace Passage

variable {start middle stop other entered further : Nat}

theorem start_le (passage : Passage scene start entered stop) : start ≤ stop := by
  induction passage with
  | here => exact Nat.le_refl start
  | ignored _ _ _ induction => omega
  | around _ joins induction =>
      have := joins.lt
      omega
  | into _ _ induction => omega

theorem trans (first : Passage scene start entered middle)
    (second : Passage scene middle further stop) :
    Passage scene start (entered + further) stop := by
  induction second with
  | here => exact first
  | ignored _ found isIgnored induction => exact induction.ignored found isIgnored
  | around _ joins induction => exact induction.around joins
  | into _ found induction => exact induction.into found

theorem split (regular : scene.Regular) (first : Passage scene start entered stop)
    (second : Passage scene other further stop) (le : start ≤ other) :
    ∃ before, Passage scene start before other ∧ entered = before + further := by
  induction second generalizing entered with
  | here => exact ⟨entered, first, rfl⟩
  | ignored passage found isIgnored induction =>
      have later := passage.start_le
      cases first with
      | here => omega
      | ignored first _ _ => exact induction first
      | around _ joins =>
          exact absurd joins (regular.not_joins_of_ignored found isIgnored)
      | into _ isOpening =>
          exact absurd isOpening (regular.not_opening_of_ignored found isIgnored)
  | around passage joins induction =>
      have later := passage.start_le
      have inside := joins.lt
      cases first with
      | here => omega
      | ignored _ found isIgnored =>
          exact absurd joins (regular.not_joins_of_ignored found isIgnored)
      | around first alsoJoins =>
          have equal := joins.backward.symm.trans alsoJoins.backward
          injection equal with equal
          subst equal
          exact induction first
      | into _ isOpening => exact absurd isOpening (regular.not_opening_of_joins joins)
  | into passage isOpening induction =>
      have later := passage.start_le
      cases first with
      | here => omega
      | ignored _ found isIgnored =>
          exact absurd isOpening (regular.not_opening_of_ignored found isIgnored)
      | around _ joins => exact absurd isOpening (regular.not_opening_of_joins joins)
      | into first _ =>
          obtain ⟨before, passage, equal⟩ := induction first
          exact ⟨before, passage, by omega⟩

theorem entered_eq_zero (passage : Passage scene start entered start) : entered = 0 := by
  cases passage with
  | here => rfl
  | ignored passage _ _ =>
      have := passage.start_le
      omega
  | around passage joins =>
      have := passage.start_le
      have := joins.lt
      omega
  | into passage _ =>
      have := passage.start_le
      omega

theorem entered_unique (regular : scene.Regular)
    (first : Passage scene start entered stop)
    (second : Passage scene start further stop) : entered = further := by
  obtain ⟨before, loop, equal⟩ := first.split regular second (Nat.le_refl start)
  rw [equal, loop.entered_eq_zero, Nat.zero_add]

theorem stop_le_of_inside (regular : scene.Regular) {opening closing : Nat}
    (joins : scene.table.Joins opening closing) (after : opening < start)
    (before : start ≤ closing) (inside : Passage scene start entered stop) :
    stop ≤ closing := by
  induction inside with
  | here => exact before
  | ignored passage found isIgnored induction =>
      rcases Nat.lt_or_eq_of_le induction with before | rfl
      · exact before
      · exact absurd joins (regular.not_joins_of_ignored found isIgnored)
  | around passage further induction =>
      have := passage.start_le
      rcases Nat.lt_or_eq_of_le induction with before | rfl
      · rw [regular.table_eq] at joins further
        exact joins.nested further (by omega) before
      · exact absurd (regular.opening_of_joins further)
          (regular.not_opening_of_joins joins)
  | into passage isOpening induction =>
      rcases Nat.lt_or_eq_of_le induction with before | rfl
      · exact before
      · exact absurd isOpening (regular.not_opening_of_joins joins)

theorem stop_le (regular : scene.Regular) {opening closing : Nat}
    (joins : scene.table.Joins opening closing)
    (inside : Passage scene (opening + 1) entered stop) : stop ≤ closing :=
  inside.stop_le_of_inside regular joins (Nat.lt_succ_self opening) joins.lt

end Passage

end LSystems.Scene
