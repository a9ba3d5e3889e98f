import LSystems.Proofs.Context.Ancestors
import LSystems.Proofs.Pairs

/-!
# Brackets without a partner

A closing bracket without a partner ends every walk. An opening one only ends the walk
to the successor: for all others it opens a branch that is not closed, through which the
walk back leaves and into which the walk to the children looks. Main statement:
`Scene.walks_at_wall`.
-/

namespace LSystems

namespace BracketTable

variable {branches : BranchPair Symbol} {symbols : Array Symbol}
    {opening closing position : Nat}

private theorem Joins.joins_of_between
    (joins : (ofSymbols branches symbols).Joins opening closing) {first second : Nat}
    (inner : (ofSymbols branches
      ((symbols.toList.take closing).drop (opening + 1)).toArray).Joins first second) :
    (ofSymbols branches symbols).Joins (opening + 1 + first) (opening + 1 + second) := by
  have inside := (Array.getElem?_eq_some_iff.mp inner.kinds.2.1).1
  have opens : opening + 1 ≤ symbols.toList.length := by
    rw [Array.length_toList]
    exact (Array.getElem?_eq_some_iff.mp joins.kinds.1).1
  have whole :=
    (joins_append_iff (symbols.toList.take (opening + 1)) (symbols.toList.drop closing)
      inside).mpr inner
  have front :
      symbols.toList.take (opening + 1) =
      (symbols.toList.take closing).take (opening + 1) := by
    rw [List.take_take, Nat.min_eq_left joins.lt]
  rw [List.length_take_of_le opens, front, ← List.append_assoc,
    List.take_append_drop, List.take_append_drop] at whole
  exact whole

theorem Joins.exists_partner? (joins : (ofSymbols branches symbols).Joins opening closing)
    (after : opening ≤ position) (before : position ≤ closing) {symbol : Symbol}
    (found : symbols[position]? = some symbol)
    (isBracket : branches.contains symbol = true) :
    ∃ partner, (ofSymbols branches symbols).partner? position = some partner := by
  rcases Nat.lt_or_eq_of_le after with after | rfl
  · rcases Nat.lt_or_eq_of_le before with before | rfl
    · rcases Nat.exists_eq_add_of_le (show opening + 1 ≤ position from after) with
        ⟨index, rfl⟩
      have valid := validate_eq_ok_iff.mpr (joins_iff.mp joins).2.2.2.2
      have inside : ((symbols.toList.take closing).drop (opening + 1)).toArray[index]? =
          some symbol := by
        rw [List.getElem?_toArray, List.getElem?_drop, List.getElem?_take_of_lt before,
          Array.getElem?_toList, found]
      rcases exists_partner?_of_validate valid inside isBracket with ⟨partner, isPartner⟩
      rcases joins_of_partner? isPartner with inner | inner
      · exact ⟨_, (joins.joins_of_between inner).forward⟩
      · exact ⟨_, (joins.joins_of_between inner).backward⟩
    · exact ⟨opening, joins.backward⟩
  · exact ⟨closing, joins.forward⟩

end BracketTable

namespace Scene

variable {scene : Scene} {wall position : Nat}

/-- A bracket without a partner. -/
def Wall (scene : Scene) (position : Nat) : Prop :=
  (∃ symbol, scene.symbol? position = some symbol ∧
    scene.branches.contains symbol = true) ∧
    scene.table.partner? position = none

/-- Whatever gets past a bracket without a partner enters the branch that it opens. -/
theorem Passage.through_wall (regular : scene.Regular) (isWall : scene.Wall wall)
    {start entered stop : Nat} (passage : Passage scene start entered stop)
    (after : start ≤ wall) (before : wall < stop) :
    scene.symbol? wall = some scene.branches.opening ∧
      ∃ front behind, Passage scene start front wall ∧
        Passage scene (wall + 1) behind stop ∧
        entered = front + behind + 1 := by
  rcases isWall with ⟨⟨symbol, found, isBracket⟩, unmatched⟩
  induction passage with
  | here => omega
  | ignored passage isSymbol isIgnored induction =>
      rcases Nat.lt_succ_iff_lt_or_eq.mp before with earlier | rfl
      · rcases induction earlier with ⟨isOpening, front, behind, toWall, onward, count⟩
        exact ⟨isOpening, front, behind, toWall, onward.ignored isSymbol isIgnored, count⟩
      · cases found.symm.trans isSymbol
        cases isBracket.symm.trans (regular.not_bracket_of_ignored isIgnored)
  | @around _ stop closing passage joins induction =>
      rcases Nat.lt_or_ge wall stop with earlier | inside
      · rcases induction earlier with ⟨isOpening, front, behind, toWall, onward, count⟩
        exact ⟨isOpening, front, behind, toWall, onward.around joins, count⟩
      · -- A step around a branch passes only brackets that have partners.
        rw [regular.table_eq] at joins unmatched
        rcases joins.exists_partner? inside (Nat.le_of_lt_succ before) found
          isBracket with
          ⟨partner, isPartner⟩
        cases unmatched.symm.trans isPartner
  | into passage isOpening induction =>
      rcases Nat.lt_succ_iff_lt_or_eq.mp before with earlier | rfl
      · rcases induction earlier with ⟨wallOpens, front, behind, toWall, onward, count⟩
        exact ⟨wallOpens, front, behind + 1, toWall, onward.into isOpening, by omega⟩
      · exact ⟨isOpening, _, 0, passage, .here, rfl⟩

/-! ## Walks forward -/

theorem Wall.not_visible (isWall : scene.Wall wall) : ¬ scene.Visible wall := by
  rintro ⟨symbol, found, _, noBracket⟩
  rcases isWall.1 with ⟨_, alsoFound, isBracket⟩
  cases found.symm.trans alsoFound
  cases noBracket.symm.trans isBracket

theorem Wall.successor?_lt (isWall : scene.Wall wall) (regular : scene.Regular)
    (before : position < wall) {next : Nat}
    (isNext : scene.successor? position = some next) :
    next < wall := by
  rcases (successor?_eq_some_iff regular).mp isNext with ⟨visible, passage⟩
  rcases Nat.lt_trichotomy next wall with inFront | rfl | beyond
  · exact inFront
  · exact absurd visible isWall.not_visible
  · rcases passage.through_wall regular isWall before beyond with ⟨_, _, _, _, _, count⟩
    omega

theorem Wall.child_lt (isWall : scene.Wall wall) (regular : scene.Regular)
    (notOpening : scene.symbol? wall ≠ some scene.branches.opening)
    (before : position < wall) {child : Nat} (member : child ∈ scene.children position) :
    child < wall := by
  rcases (mem_children_iff regular).mp member with ⟨visible, _, passage⟩
  rcases Nat.lt_trichotomy child wall with inFront | rfl | beyond
  · exact inFront
  · exact absurd visible isWall.not_visible
  · exact absurd (passage.through_wall regular isWall before beyond).1 notOpening

theorem Wall.mem_children_iff (isWall : scene.Wall wall) (regular : scene.Regular)
    (isOpening : scene.symbol? wall = some scene.branches.opening)
    (visible : scene.Visible position) {child : Nat} (before : position < wall)
    (behind : wall < child) :
    child ∈ scene.children position ↔
      scene.parent? wall = some position ∧ child ∈ scene.branchHeads (wall + 1) := by
  rw [Scene.mem_children_iff regular, mem_branchHeads_iff regular,
    parent?_eq_some_iff regular]
  constructor
  · rintro ⟨childVisible, entered, passage⟩
    rcases passage.through_wall regular isWall before behind with
      ⟨_, front, further, toWall, onward, _⟩
    exact ⟨⟨visible, front, toWall⟩, childVisible, further, onward⟩
  · rintro ⟨⟨_, front, toWall⟩, childVisible, further, onward⟩
    have passage := (toWall.into isOpening).trans onward
    rw [Nat.add_right_comm] at passage
    exact ⟨childVisible, front + further, passage⟩

/-! ## Walks back -/

theorem Wall.parent?_cases (isWall : scene.Wall wall) (regular : scene.Regular)
    (behind : wall < position) {parent : Nat}
    (isParent : scene.parent? position = some parent) :
    wall < parent ∨
      scene.symbol? wall = some scene.branches.opening ∧
      scene.parent? wall = some parent := by
  rcases (parent?_eq_some_iff regular).mp isParent with ⟨visible, _, passage⟩
  rcases Nat.lt_trichotomy wall parent with after | rfl | inFront
  · exact .inl after
  · exact absurd visible isWall.not_visible
  · rcases passage.through_wall regular isWall inFront behind with
      ⟨isOpening, front, _, toWall, _, _⟩
    exact .inr ⟨isOpening, (parent?_eq_some_iff regular).mpr ⟨visible, front, toWall⟩⟩

end Scene

namespace LeftContext

variable {scene : Scene} {wall position : Nat}

theorem descends_of_climb? {shapes : List Shape} {found : List Nat}
    (climbed : climb? scene shapes position = some found) :
    ∀ place ∈ found, scene.Descends position place := by
  induction shapes generalizing position found with
  | nil =>
      cases climbed
      exact nofun
  | cons shape further induction =>
      rcases climb?_cons_eq_some_iff.mp climbed with
        ⟨parent, above, isParent, _, isAbove, rfl⟩
      refine List.forall_mem_cons.mpr ⟨.single isParent, fun place member => ?_⟩
      exact .head isParent (induction isAbove place member)

theorem climb?_from_behind (isWall : scene.Wall wall) (regular : scene.Regular)
    (behind : wall < position) {shapes : List Shape} {found : List Nat}
    (climbed : climb? scene shapes position = some found) :
    ∀ place ∈ found, wall < place ∨
      scene.symbol? wall = some scene.branches.opening ∧ scene.Descends wall place := by
  induction shapes generalizing position found with
  | nil =>
      cases climbed
      exact nofun
  | cons shape further induction =>
      rcases climb?_cons_eq_some_iff.mp climbed with
        ⟨parent, above, isParent, _, isAbove, rfl⟩
      refine List.forall_mem_cons.mpr ?_
      rcases isWall.parent?_cases regular behind isParent with
        after | ⟨isOpening, fromWall⟩
      · exact ⟨.inl after, induction after isAbove⟩
      · refine ⟨.inr ⟨isOpening, .single fromWall⟩, fun place member => ?_⟩
        exact .inr ⟨isOpening, .head fromWall (descends_of_climb? isAbove place member)⟩

theorem match?_from_behind (isWall : scene.Wall wall) (regular : scene.Regular)
    (behind : wall < position) {context : LeftContext} {matched : List Nat}
    (found : match? scene context position = some matched) :
    ∀ place ∈ matched, wall < place ∨
      scene.symbol? wall = some scene.branches.opening ∧ scene.Descends wall place := by
  rcases Option.map_eq_some_iff.mp found with ⟨climbed, isClimbed, rfl⟩
  intro place member
  exact climb?_from_behind isWall regular behind isClimbed place
    (List.mem_reverse.mp member)

end LeftContext

namespace Scene

/-- The walks of a word whose brackets are not ignored, at a bracket without a partner.
No successor is found past it. A closing bracket also ends the walk to the children and
every left context. An opening one does neither: the children of its parent go on with
the first symbols behind it, and left contexts go on with its parent. -/
theorem walks_at_wall {branches : BranchPair Symbol} {ignored : SymbolSet}
    (opening : ignored.contains branches.opening = false)
    (closing : ignored.contains branches.closing = false) {word : Word} {wall : Nat}
    (isWall : (ofWord branches ignored word).Wall wall) :
    let scene := ofWord branches ignored word
    (∀ position < wall, ∀ next, scene.successor? position = some next → next < wall) ∧
    (scene.symbol? wall ≠ some branches.opening →
      (∀ position < wall, ∀ child ∈ scene.children position, child < wall) ∧
      ∀ position > wall, ∀ context matched,
        LeftContext.match? scene context position = some matched →
        ∀ place ∈ matched, wall < place) ∧
    (scene.symbol? wall = some branches.opening →
      (∀ position < wall, scene.Visible position → ∀ child > wall,
        (child ∈ scene.children position ↔
          scene.parent? wall = some position ∧ child ∈ scene.branchHeads (wall + 1))) ∧
      scene.parent? (wall + 1) = scene.parent? wall ∧
      ∀ position > wall, ∀ context matched,
        LeftContext.match? scene context position = some matched →
        ∀ place ∈ matched, wall < place ∨ scene.Descends wall place) := by
  intro scene
  have regular : scene.Regular := regular_ofWord word opening closing
  refine ⟨fun position before next => isWall.successor?_lt regular before,
    fun notOpening =>
      ⟨fun position before child => isWall.child_lt regular notOpening before, ?_⟩,
    fun isOpening => ⟨?_, parent?_of_passage regular (.into .here isOpening), ?_⟩⟩
  · intro position behind context matched found place member
    have known := LeftContext.match?_from_behind isWall regular behind found place member
    exact known.resolve_right fun passed => notOpening passed.1
  · intro position before visible child behind
    exact isWall.mem_children_iff regular isOpening visible before behind
  · intro position behind context matched found place member
    have known := LeftContext.match?_from_behind isWall regular behind found place member
    exact known.imp_right And.right

/-- In `A]B[C]D[E` the first and the last bracket have no partner. The left context of
`E` ends behind the one and goes on through the other. -/
theorem walks_at_wall_both :
    let scene := ofWord ⟨0, 1⟩ .empty (.ofSymbols [2, 1, 3, 0, 4, 1, 5, 0, 6])
    scene.Wall 1 ∧ scene.Wall 7 ∧ scene.successor? 2 = some 6 ∧ 6 < 7 ∧
    8 ∈ scene.children 6 ∧
      LeftContext.match? scene [⟨3, 0⟩, ⟨5, 0⟩] 8 = some [2, 6] ∧
      ∀ place ∈ [2, 6], 1 < place ∧ scene.Descends 7 place := by
  intro scene
  have closed : scene.Wall 1 := ⟨⟨1, by decide +kernel⟩, by decide +kernel⟩
  have opened : scene.Wall 7 := ⟨⟨0, by decide +kernel⟩, by decide +kernel⟩
  have found : LeftContext.match? scene [⟨3, 0⟩, ⟨5, 0⟩] 8 = some [2, 6] := by
    decide +kernel
  have isNext : scene.successor? 2 = some 6 := by decide +kernel
  have visible : scene.Visible 6 := ⟨5, by decide +kernel⟩
  rcases walks_at_wall rfl rfl closed with ⟨_, atClosing, _⟩
  rcases walks_at_wall rfl rfl opened with ⟨successors, _, atOpening⟩
  rcases atOpening (by decide +kernel) with ⟨children, _, leftContexts⟩
  have isChild : 8 ∈ scene.children 6 :=
    (children 6 (by decide) visible 8 (by decide)).mpr
      ⟨by decide +kernel, by decide +kernel⟩
  refine ⟨closed, opened, isNext, successors 2 (by decide) 6 isNext, isChild, found,
    fun place member => ⟨?_, ?_⟩⟩
  · exact (atClosing (by decide +kernel)).2 8 (by decide) _ _ found place member
  · have inFront : ∀ place ∈ [2, 6], ¬ 7 < place := by decide
    have known := leftContexts 8 (by decide) _ _ found place member
    exact known.resolve_left (inFront place member)

/-- A bracket without a partner need not end left contexts, nor the walk to the
children: in `A[B` the left context of `B` finds `A`, and `B` is a child of `A`. -/
theorem not_forall_ends_at_wall :
    (¬ ∀ (word : Word) (wall position : Nat),
      let scene := ofWord ⟨0, 1⟩ .empty word
      scene.Wall wall → wall < position → ∀ context matched,
        (∀ shape ∈ context, scene.branches.contains shape.symbol = false) →
        LeftContext.match? scene context position = some matched →
        ∀ place ∈ matched, ¬ place < wall) ∧
    ¬ ∀ (word : Word) (wall position : Nat),
      let scene := ofWord ⟨0, 1⟩ .empty word
      scene.Wall wall → position < wall → ∀ child ∈ scene.children position,
        ¬ wall < child := by
  have isWall : (ofWord ⟨0, 1⟩ .empty (.ofSymbols [2, 0, 3])).Wall 1 :=
    ⟨⟨0, by decide +kernel⟩, by decide +kernel⟩
  constructor
  · intro claim
    exact claim (.ofSymbols [2, 0, 3]) 1 2 isWall (by decide) [⟨2, 0⟩] [0] (by decide)
      (by decide +kernel) 0 (by decide) (by decide)
  · intro claim
    exact claim (.ofSymbols [2, 0, 3]) 1 0 isWall (by decide) 2
      (by decide +kernel) (by decide)

end Scene

end LSystems
