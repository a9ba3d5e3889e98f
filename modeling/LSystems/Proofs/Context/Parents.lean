import LSystems.Proofs.Context.Walks
import Mathlib.Logic.Relation

/-!
# Parents

Left and right contexts describe one tree: a left context of one symbol finds the parent
of a position, and the children of a parent are its successor and the heads of its
branches. Main statement: `match?_singleton_iff`.
-/

namespace LSystems

namespace Scene

variable {scene : Scene} {parent child : Nat}

theorem successor?_eq_some_iff (regular : scene.Regular) :
    scene.successor? parent = some child ↔
      scene.Visible child ∧ Passage scene (parent + 1) 0 child :=
  forward?_eq_some_iff regular

theorem mem_children_iff (regular : scene.Regular) :
    child ∈ scene.children parent ↔
      scene.Visible child ∧ ∃ entered, Passage scene (parent + 1) (entered + 1) child :=
  mem_branchesFrom_iff regular

theorem children_sorted (regular : scene.Regular) (position : Nat) :
    (scene.children position).Pairwise (· < ·) :=
  branchesFrom_sorted regular _

/-- The child is the successor of the parent or starts one of its branches. -/
def Linked (scene : Scene) (parent child : Nat) : Prop :=
  scene.successor? parent = some child ∨ child ∈ scene.children parent

theorem linked_iff (regular : scene.Regular) :
    scene.Linked parent child ↔
      scene.Visible child ∧ ∃ entered, Passage scene (parent + 1) entered child := by
  rw [Linked, successor?_eq_some_iff regular, mem_children_iff regular]
  constructor
  · rintro (⟨visible, passage⟩ | ⟨visible, entered, passage⟩)
    · exact ⟨visible, 0, passage⟩
    · exact ⟨visible, entered + 1, passage⟩
  · rintro ⟨visible, entered, passage⟩
    cases entered with
    | zero => exact .inl ⟨visible, passage⟩
    | succ entered => exact .inr ⟨visible, entered, passage⟩

theorem Linked.lt (linked : scene.Linked parent child) (regular : scene.Regular) :
    parent < child := by
  obtain ⟨_, _, passage⟩ := (linked_iff regular).mp linked
  exact passage.start_le

theorem Linked.visible (linked : scene.Linked parent child) (regular : scene.Regular) :
    scene.Visible child :=
  ((linked_iff regular).mp linked).1

theorem not_mem_children_of_successor? (regular : scene.Regular)
    (isSuccessor : scene.successor? parent = some child) :
    child ∉ scene.children parent := by
  intro member
  obtain ⟨_, level⟩ := (successor?_eq_some_iff regular).mp isSuccessor
  obtain ⟨_, entered, passage⟩ := (mem_children_iff regular).mp member
  have equal := level.entered_unique regular passage
  omega

theorem parent?_eq_some_iff_linked (regular : scene.Regular)
    (visible : scene.Visible child) :
    scene.parent? child = some parent ↔
    scene.Visible parent ∧ scene.Linked parent child := by
  rw [parent?_eq_some_iff regular, linked_iff regular]
  exact and_congr_right fun _ => (and_iff_right visible).symm

theorem Linked.parent?_eq (linked : scene.Linked parent child) (regular : scene.Regular) :
    scene.parent? child = scene.parent? (parent + 1) := by
  obtain ⟨_, _, passage⟩ := (linked_iff regular).mp linked
  exact parent?_of_passage regular passage

/-! ## Descent -/

def Descends (scene : Scene) : Nat → Nat → Prop :=
  Relation.ReflTransGen fun child parent => scene.parent? child = some parent

variable {place first second : Nat}

theorem Descends.le (regular : scene.Regular) (descends : scene.Descends place first) :
    first ≤ place := by
  induction descends with
  | refl => exact Nat.le_refl _
  | tail _ isParent induction => exact Nat.le_of_lt (Nat.lt_of_lt_of_le
      (parent?_lt regular isParent) induction)

private theorem eq_of_descends (regular : scene.Regular)
    (isFirst : scene.Linked parent first) (isSecond : scene.Linked parent second)
    (descends : scene.Descends first second) :
    first = second := by
  cases descends using Relation.ReflTransGen.head_induction_on with
  | refl => rfl
  | @head _ upper isUpper further =>
      -- Both have the same parent, which would have to lie behind the second.
      have alsoUpper : scene.parent? second = some upper := by
        rw [isSecond.parent?_eq regular, ← isFirst.parent?_eq regular, isUpper]
      have := parent?_lt regular alsoUpper
      have := Descends.le regular further
      omega

theorem Linked.unique (regular : scene.Regular) (isFirst : scene.Linked parent first)
    (isSecond : scene.Linked parent second) (fromFirst : scene.Descends place first)
    (fromSecond : scene.Descends place second) : first = second := by
  have oneParent : Relator.RightUnique fun child parent =>
      scene.parent? child = some parent :=
    fun _ _ _ isParent isOther => Option.some.inj (isParent.symm.trans isOther)
  rcases Relation.ReflTransGen.total_of_right_unique oneParent fromFirst fromSecond with
    descends | descends
  · exact eq_of_descends regular isFirst isSecond descends
  · exact (eq_of_descends regular isSecond isFirst descends).symm

end Scene

namespace LeftContext

theorem match?_singleton {scene : Scene} {shape : Shape} {parent child : Nat} :
    match? scene [shape] child = some [parent] ↔
      scene.parent? child = some parent ∧ scene.hasShape parent shape = true := by
  rw [match?, List.reverse_singleton, Option.map_eq_some_iff]
  constructor
  · rintro ⟨_, climbed, isFound⟩
    rcases climb?_cons_eq_some_iff.mp climbed with ⟨other, _, isParent, has, ⟨⟩, rfl⟩
    cases isFound
    exact ⟨isParent, has⟩
  · rintro ⟨isParent, has⟩
    exact ⟨_, climb?_cons_eq_some_iff.mpr ⟨parent, [], isParent, has, rfl, rfl⟩, rfl⟩

/-- Between visible positions of a word whose brackets are not ignored, a left context
of the parent's shape finds exactly the parent in the tree of right contexts. A child is
either its parent's successor or one head of a branch, and it has one parent only. -/
theorem match?_singleton_iff {branches : BranchPair Symbol} {ignored : SymbolSet}
    (opening : ignored.contains branches.opening = false)
    (closing : ignored.contains branches.closing = false) (word : Word)
    {parent child : Nat}
    (parentVisible : (Scene.ofWord branches ignored word).Visible parent)
    (childVisible : (Scene.ofWord branches ignored word).Visible child) {shape : Shape}
    (hasShape : (Scene.ofWord branches ignored word).hasShape parent shape = true) :
    let scene := Scene.ofWord branches ignored word
    (match? scene [shape] child = some [parent] ↔
      scene.successor? parent = some child ∨ child ∈ scene.children parent) ∧
    ¬ (scene.successor? parent = some child ∧ child ∈ scene.children parent) ∧
    (scene.children parent).count child ≤ 1 ∧
    ∀ other, scene.Visible other →
      scene.successor? parent = some child ∨ child ∈ scene.children parent →
      scene.successor? other = some child ∨ child ∈ scene.children other →
      other = parent := by
  intro scene
  have regular : scene.Regular := Scene.regular_ofWord word opening closing
  refine ⟨?_, ?_, ?_, ?_⟩
  · rw [match?_singleton, Scene.parent?_eq_some_iff_linked regular childVisible]
    simp [scene, hasShape, parentVisible, Scene.Linked]
  · rintro ⟨isSuccessor, member⟩
    exact Scene.not_mem_children_of_successor? regular isSuccessor member
  · apply List.nodup_iff_count.mp
    exact (Scene.children_sorted regular parent).imp Nat.ne_of_lt
  · intro other otherVisible linked otherLinked
    have first := (Scene.parent?_eq_some_iff_linked regular childVisible).mpr
      ⟨parentVisible, linked⟩
    have second := (Scene.parent?_eq_some_iff_linked regular childVisible).mpr
      ⟨otherVisible, otherLinked⟩
    exact Option.some.inj (second.symm.trans first)

/-- In `A[+[B]C]D` with `+` ignored, the parent of `C` is `A`, past the branch of `B`. -/
theorem match?_singleton_iff_nested :
    let word := Word.ofSymbols [2, 0, 6, 0, 3, 1, 4, 1, 5]
    let scene := Scene.ofWord ⟨0, 1⟩ ⟨[6]⟩ word
    scene.Visible 0 ∧ scene.Visible 6 ∧ scene.hasShape 0 ⟨2, 0⟩ = true ∧
      match? scene [⟨2, 0⟩] 6 = some [0] ∧
      (scene.successor? 0 = some 6 ∨ 6 ∈ scene.children 0) ∧
      (scene.children 0).count 6 ≤ 1 := by
  intro word scene
  have parentVisible : scene.Visible 0 := ⟨2, by decide +kernel⟩
  have childVisible : scene.Visible 6 := ⟨4, by decide +kernel⟩
  have hasShape : scene.hasShape 0 ⟨2, 0⟩ = true := by decide +kernel
  have found : match? scene [⟨2, 0⟩] 6 = some [0] := by decide +kernel
  have agree := match?_singleton_iff (by decide) (by decide) word parentVisible
    childVisible hasShape
  exact ⟨parentVisible, childVisible, hasShape, found, agree.1.mp found, agree.2.2.1⟩

end LeftContext

end LSystems
