import LSystems.Proofs.Context.Passage

/-!
# Walks along passages

Each walk of a scene finds exactly the visible positions at the end of certain passages:
the symbol that follows lies behind a passage that enters no branch, the branches hang
behind passages that enter some, and the parent is the visible position in front of a
passage.
-/

namespace LSystems.Scene

variable {scene : Scene} {position : Nat}

/-! ## One step of each walk -/

theorem forward?_eq (scene : Scene) (position : Nat) :
    scene.forward? position =
      match scene.symbol? position with
      | none => none
      | some symbol =>
        if scene.ignored.contains symbol then scene.forward? (position + 1)
        else if symbol = scene.branches.opening then
          (scene.behindBranch? position).bind scene.forward?
        else if symbol = scene.branches.closing then none
        else some position := by
  rw [forward?]
  split
  · next missing => rw [missing]
  · next symbol found =>
      simp only [found]
      split
      · rfl
      · split
        · split
          · next jump => rw [jump, Option.bind_some]
          · next none => rw [none, Option.bind_none]
        · rfl

theorem branchHeads_eq (scene : Scene) (position : Nat) :
    scene.branchHeads position =
      match scene.symbol? position with
      | none => []
      | some symbol =>
        if scene.ignored.contains symbol then scene.branchHeads (position + 1)
        else if symbol = scene.branches.opening then
          scene.branchHeads (position + 1) ++
            ((scene.behindBranch? position).map scene.branchHeads).getD []
        else if symbol = scene.branches.closing then []
        else [position] := by
  rw [branchHeads]
  split
  · next missing => rw [missing]
  · next symbol found =>
      simp only [found]
      split
      · rfl
      · split
        · split
          · next jump => rw [jump, Option.map_some, Option.getD_some]
          · next none => rw [none, Option.map_none, Option.getD_none]
        · rfl

theorem branchesFrom_eq (scene : Scene) (position : Nat) :
    scene.branchesFrom position =
      match scene.symbol? position with
      | none => []
      | some symbol =>
        if scene.ignored.contains symbol then scene.branchesFrom (position + 1)
        else if symbol = scene.branches.opening then
          scene.branchHeads (position + 1) ++
            ((scene.behindBranch? position).map scene.branchesFrom).getD []
        else [] := by
  rw [branchesFrom]
  split
  · next missing => rw [missing]
  · next symbol found =>
      simp only [found]
      split
      · rfl
      · split
        · split
          · next jump => rw [jump, Option.map_some, Option.getD_some]
          · next none => rw [none, Option.map_none, Option.getD_none]
        · rfl

theorem parent?_succ_eq (scene : Scene) (before : Nat) :
    scene.parent? (before + 1) =
      match scene.symbol? before with
      | none => none
      | some symbol =>
        if symbol = scene.branches.opening || scene.ignored.contains symbol then
          scene.parent? before
        else if symbol = scene.branches.closing then
          (scene.branchStart? before).bind scene.parent?
        else some before := by
  rw [parent?]
  cases scene.symbol? before with
  | none => rfl
  | some symbol =>
      dsimp only
      split
      · rfl
      · split
        · split
          · next jump => rw [jump, Option.bind_some]
          · next none => rw [none, Option.bind_none]
        · rfl

section

variable {symbol : Symbol}

private theorem Visible.elim (visible : scene.Visible position) :
    ∃ symbol, scene.symbol? position = some symbol ∧
      scene.ignored.contains symbol = false ∧
      symbol ≠ scene.branches.opening ∧ symbol ≠ scene.branches.closing := by
  obtain ⟨symbol, found, seen, noBracket⟩ := visible
  simp only [BranchPair.contains, Bool.or_eq_false_iff,
    decide_eq_false_iff_not] at noBracket
  exact ⟨symbol, found, seen, noBracket.1, noBracket.2⟩

private theorem visible_of (found : scene.symbol? position = some symbol)
    (seen : ¬ scene.ignored.contains symbol = true)
    (notOpening : ¬ symbol = scene.branches.opening)
    (notClosing : ¬ symbol = scene.branches.closing) : scene.Visible position :=
  ⟨symbol, found, by simpa using seen,
    by simp [BranchPair.contains, notOpening, notClosing]⟩

private theorem forward?_ignored (found : scene.symbol? position = some symbol)
    (isIgnored : scene.ignored.contains symbol = true) :
    scene.forward? position = scene.forward? (position + 1) := by
  rw [forward?_eq, found]
  simp only [isIgnored, if_true]

private theorem forward?_around (regular : scene.Regular) {closing : Nat}
    (joins : scene.table.Joins position closing) :
    scene.forward? position = scene.forward? (closing + 1) := by
  have jump : scene.behindBranch? position = some (closing + 1) :=
    regular.behindBranch?_eq_some_iff.mpr ⟨closing, joins, rfl⟩
  rw [forward?_eq, regular.opening_of_joins joins]
  simp only [regular.opening_seen, Bool.false_eq_true, if_false, if_true, jump,
    Option.bind_some]

private theorem forward?_visible (visible : scene.Visible position) :
    scene.forward? position = some position := by
  obtain ⟨symbol, found, seen, notOpening, notClosing⟩ := visible.elim
  rw [forward?_eq, found]
  simp only [seen, Bool.false_eq_true, if_false, notOpening, notClosing]

private theorem branchHeads_ignored (found : scene.symbol? position = some symbol)
    (isIgnored : scene.ignored.contains symbol = true) :
    scene.branchHeads position = scene.branchHeads (position + 1) := by
  rw [branchHeads_eq, found]
  simp only [isIgnored, if_true]

private theorem branchHeads_opening (regular : scene.Regular)
    (isOpening : scene.symbol? position = some scene.branches.opening) :
    scene.branchHeads position = scene.branchHeads (position + 1) ++
      ((scene.behindBranch? position).map scene.branchHeads).getD [] := by
  rw [branchHeads_eq, isOpening]
  simp only [regular.opening_seen, Bool.false_eq_true, if_false, if_true]

private theorem branchHeads_visible (visible : scene.Visible position) :
    scene.branchHeads position = [position] := by
  obtain ⟨symbol, found, seen, notOpening, notClosing⟩ := visible.elim
  rw [branchHeads_eq, found]
  simp only [seen, Bool.false_eq_true, if_false, notOpening, notClosing]

private theorem branchesFrom_ignored (found : scene.symbol? position = some symbol)
    (isIgnored : scene.ignored.contains symbol = true) :
    scene.branchesFrom position = scene.branchesFrom (position + 1) := by
  rw [branchesFrom_eq, found]
  simp only [isIgnored, if_true]

private theorem branchesFrom_opening (regular : scene.Regular)
    (isOpening : scene.symbol? position = some scene.branches.opening) :
    scene.branchesFrom position = scene.branchHeads (position + 1) ++
      ((scene.behindBranch? position).map scene.branchesFrom).getD [] := by
  rw [branchesFrom_eq, isOpening]
  simp only [regular.opening_seen, Bool.false_eq_true, if_false, if_true]

private theorem parent?_ignored (found : scene.symbol? position = some symbol)
    (isIgnored : scene.ignored.contains symbol = true) :
    scene.parent? (position + 1) = scene.parent? position := by
  rw [parent?_succ_eq, found]
  simp only [isIgnored, Bool.or_true, if_true]

private theorem parent?_opening
    (isOpening : scene.symbol? position = some scene.branches.opening) :
    scene.parent? (position + 1) = scene.parent? position := by
  rw [parent?_succ_eq, isOpening]
  simp only [decide_true, Bool.true_or, if_true]

private theorem parent?_around (regular : scene.Regular) {opening : Nat}
    (joins : scene.table.Joins opening position) :
    scene.parent? (position + 1) = scene.parent? opening := by
  have isClosing := regular.closing_of_joins joins
  have jump : scene.branchStart? position = some opening :=
    regular.branchStart?_eq_some_iff.mpr joins
  have different : scene.branches.closing ≠ scene.branches.opening := by
    have notOpening := regular.not_opening_of_joins joins
    rw [isClosing] at notOpening
    exact fun same => notOpening (congrArg some same)
  rw [parent?_succ_eq, isClosing]
  simp only [different, decide_false, regular.closing_seen, Bool.or_self,
    Bool.false_eq_true, if_false, if_true, jump, Option.bind_some]

theorem parent?_visible (visible : scene.Visible position) :
    scene.parent? (position + 1) = some position := by
  obtain ⟨symbol, found, seen, notOpening, notClosing⟩ := visible.elim
  rw [parent?_succ_eq, found]
  simp only [seen, notOpening, notClosing, decide_false, Bool.or_self,
    Bool.false_eq_true, if_false]

end

/-! ## Forward -/

variable {start stop : Nat}

private theorem Passage.cons_ignored {symbol entered : Nat}
    (found : scene.symbol? start = some symbol)
    (isIgnored : scene.ignored.contains symbol = true)
    (passage : Passage scene (start + 1) entered stop) :
    Passage scene start entered stop := by
  simpa using (Passage.here.ignored found isIgnored).trans passage

private theorem Passage.cons_around {closing entered : Nat}
    (joins : scene.table.Joins start closing)
    (passage : Passage scene (closing + 1) entered stop) :
    Passage scene start entered stop := by
  simpa using (Passage.here.around joins).trans passage

private theorem Passage.cons_into {entered : Nat}
    (isOpening : scene.symbol? start = some scene.branches.opening)
    (passage : Passage scene (start + 1) entered stop) :
    Passage scene start (entered + 1) stop := by
  have whole := (Passage.here.into isOpening).trans passage
  rwa [Nat.zero_add, Nat.add_comm] at whole

private theorem passage_of_forward? (regular : scene.Regular)
    (found : scene.forward? start = some stop) :
    scene.Visible stop ∧ Passage scene start 0 stop := by
  fun_induction forward? scene start with
  | case1 => contradiction
  | case2 position symbol isSymbol isIgnored induction =>
      obtain ⟨visible, passage⟩ := induction found
      exact ⟨visible, passage.cons_ignored isSymbol isIgnored⟩
  | case3 position behind jump isOpening seen induction =>
      obtain ⟨closing, joins, rfl⟩ := regular.behindBranch?_eq_some_iff.mp jump
      obtain ⟨visible, passage⟩ := induction found
      exact ⟨visible, passage.cons_around joins⟩
  | case4 => contradiction
  | case5 => contradiction
  | case6 position symbol isSymbol seen notOpening notClosing =>
      obtain rfl := Option.some.inj found
      exact ⟨visible_of isSymbol seen notOpening notClosing, .here⟩

private theorem forward?_of_passage (regular : scene.Regular)
    (passage : Passage scene start 0 stop) :
    scene.forward? start = scene.forward? stop := by
  generalize none : 0 = entered at passage
  induction passage with
  | here => rfl
  | ignored _ found isIgnored induction =>
      exact (induction none).trans (forward?_ignored found isIgnored)
  | around _ joins induction =>
      exact (induction none).trans (forward?_around regular joins)
  | into => contradiction

theorem forward?_eq_some_iff (regular : scene.Regular) :
    scene.forward? start = some stop ↔
    scene.Visible stop ∧ Passage scene start 0 stop := by
  refine ⟨passage_of_forward? regular, fun ⟨visible, passage⟩ => ?_⟩
  rw [forward?_of_passage regular passage, forward?_visible visible]

/-! ## Into branches -/

private theorem passage_of_mem_branchHeads (regular : scene.Regular)
    (member : stop ∈ scene.branchHeads start) :
    scene.Visible stop ∧ ∃ entered, Passage scene start entered stop := by
  fun_induction branchHeads scene start with
  | case1 => contradiction
  | case2 position symbol isSymbol isIgnored induction =>
      obtain ⟨visible, entered, passage⟩ := induction member
      exact ⟨visible, entered, passage.cons_ignored isSymbol isIgnored⟩
  | case3 position isOpening seen inside behind =>
      rcases List.mem_append.mp member with member | member
      · obtain ⟨visible, entered, passage⟩ := inside member
        exact ⟨visible, entered + 1, passage.cons_into isOpening⟩
      · split at member
        · next place jump =>
            obtain ⟨closing, joins, rfl⟩ := regular.behindBranch?_eq_some_iff.mp jump
            obtain ⟨visible, entered, passage⟩ := behind _ jump member
            exact ⟨visible, entered, passage.cons_around joins⟩
        · contradiction
  | case4 => contradiction
  | case5 position symbol isSymbol seen notOpening notClosing =>
      obtain rfl := List.mem_singleton.mp member
      exact ⟨visible_of isSymbol seen notOpening notClosing, 0, .here⟩

private theorem passage_of_mem_branchesFrom (regular : scene.Regular)
    (member : stop ∈ scene.branchesFrom start) :
    scene.Visible stop ∧ ∃ entered, Passage scene start (entered + 1) stop := by
  fun_induction branchesFrom scene start with
  | case1 => contradiction
  | case2 position symbol isSymbol isIgnored induction =>
      obtain ⟨visible, entered, passage⟩ := induction member
      exact ⟨visible, entered, passage.cons_ignored isSymbol isIgnored⟩
  | case3 position isOpening seen behind =>
      rcases List.mem_append.mp member with member | member
      · obtain ⟨visible, entered, passage⟩ := passage_of_mem_branchHeads regular member
        exact ⟨visible, entered, passage.cons_into isOpening⟩
      · split at member
        · next place jump =>
            obtain ⟨closing, joins, rfl⟩ := regular.behindBranch?_eq_some_iff.mp jump
            obtain ⟨visible, entered, passage⟩ := behind _ jump member
            exact ⟨visible, entered, passage.cons_around joins⟩
        · contradiction
  | case4 => contradiction

private theorem branchHeads_subset (regular : scene.Regular) {entered : Nat}
    (passage : Passage scene start entered stop) :
    scene.branchHeads stop ⊆ scene.branchHeads start := by
  induction passage with
  | here => exact List.Subset.refl _
  | ignored _ found isIgnored induction =>
      rwa [← branchHeads_ignored found isIgnored]
  | around _ joins induction =>
      refine List.Subset.trans ?_ induction
      rw [branchHeads_opening regular (regular.opening_of_joins joins),
        regular.behindBranch?_eq_some_iff.mpr ⟨_, joins, rfl⟩]
      exact List.subset_append_right _ _
  | into _ isOpening induction =>
      refine List.Subset.trans ?_ induction
      rw [branchHeads_opening regular isOpening]
      exact List.subset_append_left _ _

private theorem subset_branchesFrom (regular : scene.Regular) {entered : Nat}
    (passage : Passage scene start entered stop) :
    (if entered = 0 then scene.branchesFrom stop else scene.branchHeads stop) ⊆
      scene.branchesFrom start := by
  induction passage with
  | here => exact List.Subset.refl _
  | ignored _ found isIgnored induction =>
      rwa [← branchHeads_ignored found isIgnored, ← branchesFrom_ignored found isIgnored]
  | @around entered _ _ passage joins induction =>
      have isOpening := regular.opening_of_joins joins
      have jump := regular.behindBranch?_eq_some_iff.mpr ⟨_, joins, rfl⟩
      refine List.Subset.trans ?_ induction
      split
      · rw [branchesFrom_opening regular isOpening, jump]
        exact List.subset_append_right _ _
      · rw [branchHeads_opening regular isOpening, jump]
        exact List.subset_append_right _ _
  | @into entered _ passage isOpening induction =>
      refine List.Subset.trans ?_ induction
      rw [if_neg (Nat.succ_ne_zero entered)]
      split
      · rw [branchesFrom_opening regular isOpening]
        exact List.subset_append_left _ _
      · rw [branchHeads_opening regular isOpening]
        exact List.subset_append_left _ _

theorem mem_branchHeads_iff (regular : scene.Regular) :
    stop ∈ scene.branchHeads start ↔
      scene.Visible stop ∧ ∃ entered, Passage scene start entered stop := by
  refine ⟨passage_of_mem_branchHeads regular, fun ⟨visible, entered, passage⟩ => ?_⟩
  apply branchHeads_subset regular passage
  simp [branchHeads_visible visible]

theorem mem_branchesFrom_iff (regular : scene.Regular) :
    stop ∈ scene.branchesFrom start ↔
      scene.Visible stop ∧ ∃ entered, Passage scene start (entered + 1) stop := by
  refine ⟨passage_of_mem_branchesFrom regular, fun ⟨visible, entered, passage⟩ => ?_⟩
  apply subset_branchesFrom regular passage
  simp [branchHeads_visible visible]

private theorem head_lt_of_behind (regular : scene.Regular) {closing first second : Nat}
    (joins : scene.table.Joins start closing)
    (inside : first ∈ scene.branchHeads (start + 1))
    (behind : ∃ entered, Passage scene (closing + 1) entered second) :
    first < second := by
  obtain ⟨_, entered, passage⟩ := (mem_branchHeads_iff regular).mp inside
  obtain ⟨_, further⟩ := behind
  have := passage.stop_le regular joins
  have := further.start_le
  omega

theorem branchHeads_sorted (regular : scene.Regular) (start : Nat) :
    (scene.branchHeads start).Pairwise (· < ·) := by
  fun_induction branchHeads scene start with
  | case1 => exact .nil
  | case2 _ _ _ _ induction => exact induction
  | case3 position isOpening seen inside behind =>
      refine List.pairwise_append.mpr ⟨inside, ?_, ?_⟩
      · split
        · next place jump => exact behind place jump
        · exact .nil
      · intro first firstMember second secondMember
        split at secondMember
        · next place jump =>
            obtain ⟨closing, joins, rfl⟩ := regular.behindBranch?_eq_some_iff.mp jump
            exact head_lt_of_behind regular joins firstMember
              ((mem_branchHeads_iff regular).mp secondMember).2
        · contradiction
  | case4 => exact .nil
  | case5 => exact List.pairwise_singleton _ _

theorem branchesFrom_sorted (regular : scene.Regular) (start : Nat) :
    (scene.branchesFrom start).Pairwise (· < ·) := by
  fun_induction branchesFrom scene start with
  | case1 => exact .nil
  | case2 _ _ _ _ induction => exact induction
  | case3 position isOpening seen behind =>
      refine List.pairwise_append.mpr ⟨branchHeads_sorted regular _, ?_, ?_⟩
      · split
        · next place jump => exact behind place jump
        · exact .nil
      · intro first firstMember second secondMember
        split at secondMember
        · next place jump =>
            obtain ⟨closing, joins, rfl⟩ := regular.behindBranch?_eq_some_iff.mp jump
            obtain ⟨_, entered, passage⟩ := (mem_branchesFrom_iff regular).mp secondMember
            exact head_lt_of_behind regular joins firstMember ⟨_, passage⟩
        · contradiction
  | case4 => exact .nil

/-! ## Backward -/

theorem parent?_of_passage (regular : scene.Regular) {entered : Nat}
    (passage : Passage scene start entered stop) :
    scene.parent? stop = scene.parent? start := by
  induction passage with
  | here => rfl
  | ignored _ found isIgnored induction => rw [parent?_ignored found isIgnored, induction]
  | around _ joins induction => rw [parent?_around regular joins, induction]
  | into _ isOpening induction => rw [parent?_opening isOpening, induction]

private theorem passage_of_parent? (regular : scene.Regular) {parent : Nat}
    (found : scene.parent? stop = some parent) :
    scene.Visible parent ∧ ∃ entered, Passage scene (parent + 1) entered stop := by
  fun_induction parent? scene stop with
  | case1 => contradiction
  | case2 => contradiction
  | case3 before symbol isSymbol isPassed induction =>
      obtain ⟨visible, entered, passage⟩ := induction found
      rcases Bool.or_eq_true_iff.mp isPassed with isOpening | isIgnored
      · obtain rfl := of_decide_eq_true isOpening
        exact ⟨visible, entered + 1, passage.into isSymbol⟩
      · exact ⟨visible, entered, passage.ignored isSymbol isIgnored⟩
  | case4 before opening jump isClosing seen induction =>
      obtain ⟨visible, entered, passage⟩ := induction found
      exact ⟨visible, entered, passage.around (regular.branchStart?_eq_some_iff.mp jump)⟩
  | case5 => contradiction
  | case6 before symbol isSymbol seen notClosing =>
      obtain rfl := Option.some.inj found
      simp only [Bool.or_eq_true, decide_eq_true_eq, not_or] at seen
      exact ⟨visible_of isSymbol seen.2 seen.1 notClosing, 0, .here⟩

theorem parent?_eq_some_iff (regular : scene.Regular) {parent : Nat} :
    scene.parent? stop = some parent ↔
      scene.Visible parent ∧ ∃ entered, Passage scene (parent + 1) entered stop := by
  refine ⟨passage_of_parent? regular, fun ⟨visible, entered, passage⟩ => ?_⟩
  rw [parent?_of_passage regular passage, parent?_visible visible]

theorem parent?_lt (regular : scene.Regular) {parent : Nat}
    (found : scene.parent? stop = some parent) : parent < stop := by
  obtain ⟨_, _, passage⟩ := (parent?_eq_some_iff regular).mp found
  exact passage.start_le

end LSystems.Scene
