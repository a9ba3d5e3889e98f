import LSystems.Context.Scene

/-!
# Left contexts

A left context is a row of shapes that the symbols before a position must have, walking
from each to the one that it follows or branches off.
-/

namespace LSystems

/-- The shapes of a left context as written, the nearest last. -/
abbrev LeftContext := List Shape

namespace LeftContext

def climb? (scene : Scene) : List Shape → Nat → Option (List Nat)
  | [], _ => some []
  | shape :: further, position =>
    match scene.parent? position with
    | none => none
    | some parent =>
      if scene.hasShape parent shape then (climb? scene further parent).map (parent :: ·)
      else none

theorem climb?_cons_eq_some_iff {scene : Scene} {shape : Shape} {further : List Shape}
    {position : Nat} {found : List Nat} :
    climb? scene (shape :: further) position = some found ↔
      ∃ parent above, scene.parent? position = some parent ∧
        scene.hasShape parent shape = true ∧
        climb? scene further parent = some above ∧ parent :: above = found := by
  rw [climb?]
  cases scene.parent? position with
  | none => simp
  | some parent => cases has : scene.hasShape parent shape <;> simp [has]

/-- The positions that a left context stands for before `position`, in the order of the
context. -/
def match? (scene : Scene) (context : LeftContext) (position : Nat) : Option (List Nat) :=
  (climb? scene context.reverse position).map List.reverse

end LeftContext

end LSystems
