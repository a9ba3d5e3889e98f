import LSystems.Proofs.Context.Embedding
import Mathlib.Logic.Equiv.Defs

/-!
# Rearranged words

A word may show the symbols of another one at other places. If the same passages lead
from one symbol to the next, contexts are found at the same symbols: left contexts at
the places of what they have been found at before, and right contexts in some way if in
any. Main statements: `LeftContext.match?_rearranged` and
`ContextTree.isSome_match?_rearranged`.
-/

namespace LSystems

namespace Scene

variable {whole other : Scene} {place : Equiv.Perm Nat} {position stop : Nat}

def Plain (scene : Scene) (position : Nat) : Prop :=
  ∀ symbol, scene.symbol? position = some symbol → scene.branches.contains symbol = false

theorem Visible.plain {scene : Scene} (visible : scene.Visible position) :
    scene.Plain position := by
  rcases visible with ⟨symbol, found, _, noBracket⟩
  intro other isOther
  cases found.symm.trans isOther
  exact noBracket

/-- The same symbols stand at other places, and the passages between those that are no
brackets are the same. -/
structure Rearranged (whole other : Scene) (place : Equiv.Perm Nat) : Prop where
  regular : whole.Regular
  otherRegular : other.Regular
  branches_eq : other.branches = whole.branches
  ignored_eq : other.ignored = whole.ignored
  symbol_eq : ∀ position, other.symbol? (place position) = whole.symbol? position
  arity_eq : ∀ position, other.word.arity (place position) = whole.word.arity position
  passage_iff : ∀ {position stop} (entered : Nat), whole.Plain position →
    whole.Plain stop →
    (Passage other (place position + 1) entered (place stop) ↔
      Passage whole (position + 1) entered stop)

namespace Rearranged

theorem plain_iff (rearranged : whole.Rearranged other place) :
    other.Plain (place position) ↔ whole.Plain position := by
  rw [Plain, Plain, rearranged.symbol_eq, rearranged.branches_eq]

theorem symm (rearranged : whole.Rearranged other place) :
    other.Rearranged whole place.symm where
  regular := rearranged.otherRegular
  otherRegular := rearranged.regular
  branches_eq := rearranged.branches_eq.symm
  ignored_eq := rearranged.ignored_eq.symm
  symbol_eq := fun position => by
    rw [← rearranged.symbol_eq, Equiv.apply_symm_apply]
  arity_eq := fun position => by
    rw [← rearranged.arity_eq, Equiv.apply_symm_apply]
  passage_iff := by
    intro position stop entered plain stopPlain
    rw [← place.apply_symm_apply position, rearranged.plain_iff] at plain
    rw [← place.apply_symm_apply stop, rearranged.plain_iff] at stopPlain
    have same := rearranged.passage_iff entered plain stopPlain
    rw [Equiv.apply_symm_apply, Equiv.apply_symm_apply] at same
    exact same.symm

theorem visible (rearranged : whole.Rearranged other place)
    (visible : whole.Visible position) :
    other.Visible (place position) := by
  rwa [Visible, rearranged.symbol_eq, rearranged.branches_eq, rearranged.ignored_eq]

theorem hasShape_eq (rearranged : whole.Rearranged other place) (position : Nat)
    (shape : Shape) :
    other.hasShape (place position) shape = whole.hasShape position shape := by
  rw [hasShape, hasShape, rearranged.symbol_eq, rearranged.arity_eq]

/-! ## Walks -/

theorem successor? (rearranged : whole.Rearranged other place)
    (plain : whole.Plain position) {next : Nat}
    (isNext : whole.successor? position = some next) :
    other.successor? (place position) = some (place next) := by
  rcases (successor?_eq_some_iff rearranged.regular).mp isNext with ⟨visible, passage⟩
  exact (successor?_eq_some_iff rearranged.otherRegular).mpr
    ⟨rearranged.visible visible,
      (rearranged.passage_iff _ plain visible.plain).mpr passage⟩

theorem mem_children (rearranged : whole.Rearranged other place)
    (plain : whole.Plain position) {child : Nat}
    (member : child ∈ whole.children position) :
    place child ∈ other.children (place position) := by
  rcases (mem_children_iff rearranged.regular).mp member with ⟨visible, entered, passage⟩
  exact (mem_children_iff rearranged.otherRegular).mpr
    ⟨rearranged.visible visible, entered,
      (rearranged.passage_iff _ plain visible.plain).mpr passage⟩

theorem parent? (rearranged : whole.Rearranged other place) (plain : whole.Plain position)
    {parent : Nat} (isParent : whole.parent? position = some parent) :
    other.parent? (place position) = some (place parent) := by
  rcases (parent?_eq_some_iff rearranged.regular).mp isParent with
    ⟨visible, entered, passage⟩
  exact (parent?_eq_some_iff rearranged.otherRegular).mpr
    ⟨rearranged.visible visible, entered,
      (rearranged.passage_iff _ visible.plain plain).mpr passage⟩

end Rearranged

end Scene

variable {whole other : Scene} {place : Equiv.Perm Nat} {position : Nat}

/-! ## Left contexts -/

namespace LeftContext

theorem climb?_rearranged (rearranged : whole.Rearranged other place)
    {shapes : List Shape} (plain : whole.Plain position) {found : List Nat}
    (climbed : climb? whole shapes position = some found) :
    climb? other shapes (place position) = some (found.map place) := by
  induction shapes generalizing position found with
  | nil =>
      cases climbed
      rfl
  | cons shape further induction =>
      rcases climb?_cons_eq_some_iff.mp climbed with
        ⟨parent, above, isParent, has, isAbove, rfl⟩
      have visible := ((Scene.parent?_eq_some_iff rearranged.regular).mp isParent).1
      rw [← rearranged.hasShape_eq] at has
      exact climb?_cons_eq_some_iff.mpr ⟨place parent, above.map place,
        rearranged.parent? plain isParent, has, induction visible.plain isAbove, rfl⟩

theorem match?_rearranged (rearranged : whole.Rearranged other place)
    {context : LeftContext} (plain : whole.Plain position) {found : List Nat}
    (isMatch : match? whole context position = some found) :
    match? other context (place position) = some (found.map place) := by
  rcases Option.map_eq_some_iff.mp isMatch with ⟨climbed, isClimbed, rfl⟩
  rw [match?, climb?_rearranged rearranged plain isClimbed, Option.map_some,
    List.map_reverse]

end LeftContext

/-! ## Right contexts -/

namespace Embedding

def map (place : Nat → Nat) : Embedding → Embedding
  | done => done
  | next follower beyond => next (place follower) (beyond.map place)
  | branch head inside others => branch (place head) (inside.map place) (others.map place)

@[simp]
theorem heads_map (place : Nat → Nat) (embedding : Embedding) :
    (embedding.map place).heads = embedding.heads.map place := by
  induction embedding with
  | done => rfl
  | next => rfl
  | branch head inside others _ induction =>
      rw [map, heads, heads, induction, List.map_cons]

/-- The branches of one symbol may come in another order among its children. -/
theorem Fits.rearranged (rearranged : whole.Rearranged other place) {tree : ContextTree}
    {embedding : Embedding} (fits : Fits whole tree position embedding)
    (plain : whole.Plain position) :
    Fits other tree (place position) (embedding.map place) := by
  induction fits with
  | done => exact .done
  | next isSuccessor has _ induction =>
      have visible := ((Scene.successor?_eq_some_iff rearranged.regular).mp isSuccessor).1
      rw [← rearranged.hasShape_eq] at has
      exact .next (rearranged.successor? plain isSuccessor) has (induction visible.plain)
  | branch member fresh has _ _ inner outer =>
      have visible := ((Scene.mem_children_iff rearranged.regular).mp member).1
      rw [← rearranged.hasShape_eq] at has
      refine .branch (rearranged.mem_children plain member) ?_ has
        (inner visible.plain) (outer plain)
      rwa [heads_map, List.mem_map_of_injective place.injective]

end Embedding

/-- A right context is found if it has been found before, though perhaps with other
branches. -/
theorem ContextTree.isSome_match?_rearranged (rearranged : whole.Rearranged other place)
    {tree : ContextTree} (plain : whole.Plain position)
    (found : (tree.match? whole position).isSome) :
    (tree.match? other (place position)).isSome := by
  rcases Option.isSome_iff_exists.mp found with ⟨positions, isMatch⟩
  rcases Embedding.exists_chosen rearranged.regular isMatch with ⟨embedding, chosen, _⟩
  exact (chosen.fits.rearranged rearranged plain).isSome

end LSystems
