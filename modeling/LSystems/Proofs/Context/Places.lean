import LSystems.Context.Left
import LSystems.Proofs.Context.InPlace
import LSystems.Proofs.Context.Reading

/-!
# Places of written symbols

A match gives every symbol of a written context a place in the word. Read from left to
right, the symbols of a right context are found one after another: a bracket that opens
leads to the branches of the symbol in front of it, and one that closes leads back. Main
statements: `exists_before_of_match?` and `exists_behind_of_match?`.
-/

namespace LSystems

namespace Scene

variable {Member : Type}

/-- Where the symbols of a left context stand in front of a position: the last at the
parent of the position, and every other one at the parent of the next. -/
inductive Before (scene : Scene) (shape : Member → Shape) :
    List Member → Nat → List (Member × Nat) → Prop
  | nil {position} : Before scene shape [] position []
  | snoc {symbols symbol position place found} :
      scene.parent? position = some place → scene.hasShape place (shape symbol) = true →
      Before scene shape symbols place found →
      Before scene shape (symbols ++ [symbol]) position (found ++ [(symbol, place)])

/-- The position that the next symbol of a right context hangs on, and whether it starts
a branch. -/
structure Anchor where
  position : Nat
  startsBranch : Bool

def Anchor.Holds (scene : Scene) (anchor : Anchor) (place : Nat) : Prop :=
  if anchor.startsBranch then place ∈ scene.children anchor.position
  else scene.successor? anchor.position = some place

/-- Where the symbols of a right context stand, from an anchor on and with the anchors
to which closing brackets lead back. Brackets stand nowhere. -/
inductive Behind (scene : Scene) (shape : Member → Shape) :
    Anchor → List Anchor → List Member → List (Member × Nat) → Prop
  | nil {anchor outer} : Behind scene shape anchor outer [] []
  | opening {anchor outer symbol rest found} :
      (shape symbol).symbol = scene.branches.opening →
      Behind scene shape { anchor with startsBranch :=
        true } (anchor :: outer) rest found →
      Behind scene shape anchor outer (symbol :: rest) found
  | closing {anchor outer symbol rest found} :
      (shape symbol).symbol ≠ scene.branches.opening →
      (shape symbol).symbol = scene.branches.closing →
      Behind scene shape (outer.headD anchor) outer.tail rest found →
      Behind scene shape anchor outer (symbol :: rest) found
  | symbol {anchor outer symbol rest place found} :
      scene.branches.contains (shape symbol).symbol = false → anchor.Holds scene place →
      scene.hasShape place (shape symbol) = true →
      Behind scene shape ⟨place, false⟩ outer rest found →
      Behind scene shape anchor outer (symbol :: rest) ((symbol, place) :: found)

variable {scene : Scene} {shape : Member → Shape} {symbols : List Member} {position : Nat}
  {found : List (Member × Nat)}

theorem Before.map_fst (before : Before scene shape symbols position found) :
    found.map Prod.fst = symbols := by
  induction before with
  | nil => rfl
  | snoc _ _ _ induction => simp [induction]

theorem Before.hasShape (before : Before scene shape symbols position found) :
    ∀ entry ∈ found, scene.hasShape entry.2 (shape entry.1) = true := by
  induction before with
  | nil => exact nofun
  | snoc _ has _ induction =>
      intro entry member
      rcases List.mem_append.mp member with member | member
      · exact induction entry member
      · cases List.mem_singleton.mp member
        exact has

theorem Behind.map_fst {anchor : Anchor} {outer : List Anchor}
    (behind : Behind scene shape anchor outer symbols found) :
    found.map Prod.fst =
      symbols.filter fun symbol => !scene.branches.contains (shape symbol).symbol := by
  induction behind with
  | nil => rfl
  | opening isOpening _ induction => simp [induction, BranchPair.contains, isOpening]
  | closing _ isClosing _ induction => simp [induction, BranchPair.contains, isClosing]
  | symbol notBracket _ _ _ induction => simp [induction, notBracket]

theorem Behind.hasShape {anchor : Anchor} {outer : List Anchor}
    (behind : Behind scene shape anchor outer symbols found) :
    ∀ entry ∈ found, scene.hasShape entry.2 (shape entry.1) = true := by
  induction behind with
  | nil => exact nofun
  | opening _ _ induction => exact induction
  | closing _ _ _ induction => exact induction
  | symbol _ _ has _ induction => exact List.forall_mem_cons.mpr ⟨has, induction⟩

end Scene

open Scene

/-! ## Left contexts -/

namespace LeftContext

theorem exists_before_of_match? {Member : Type} {scene : Scene}
    {shape : Member → Shape} {symbols : List Member} {position : Nat} {places : List Nat}
    (matched : match? scene (symbols.map shape) position = some places) :
    ∃ found, Before scene shape symbols position found ∧ found.map Prod.snd = places := by
  have climbs : ∀ (reversed : List Member) (position : Nat) (places : List Nat),
      climb? scene (reversed.map shape) position = some places →
      ∃ found, Before scene shape reversed.reverse position found ∧
        found.map Prod.snd = places.reverse := by
    intro reversed
    induction reversed with
    | nil =>
        intro position places climbed
        cases climbed
        exact ⟨[], .nil, rfl⟩
    | cons symbol further induction =>
        intro position places climbed
        rcases climb?_cons_eq_some_iff.mp climbed with
          ⟨parent, rest, isParent, has, isRest, rfl⟩
        rcases induction parent rest isRest with ⟨found, before, arePlaces⟩
        rw [List.reverse_cons, List.reverse_cons]
        exact ⟨_, .snoc isParent has before, by simp [arePlaces]⟩
  rcases Option.map_eq_some_iff.mp matched with ⟨reversed, climbed, rfl⟩
  rw [← List.map_reverse] at climbed
  have found := climbs symbols.reverse position reversed climbed
  rwa [List.reverse_reverse] at found

end LeftContext

/-! ## Trees -/

namespace ContextTree

inductive Stands (scene : Scene) : ContextTree → Nat → List Nat → Prop
  | done {position} : Stands scene done position []
  | next {position shape beyond follower places} :
      scene.successor? position = some follower → scene.hasShape follower shape = true →
      Stands scene beyond follower places →
      Stands scene (next shape beyond) position (follower :: places)
  | branch {position shape inside others head inner outer} :
      head ∈ scene.children position → scene.hasShape head shape = true →
      Stands scene inside head inner → Stands scene others position outer →
      Stands scene (branch shape inside others) position (head :: (inner ++ outer))

variable {scene : Scene} {position : Nat} {places : List Nat}

theorem stands_of_parts (tree : ContextTree) {position : Nat}
    {free level branches : List Nat} (areChildren : free ⊆ scene.children position)
    (isLevel : tree.matchNext? scene position = some level)
    (areBranches : tree.matchBranches? scene free = some branches) :
    tree.Stands scene position (branches ++ level) := by
  induction tree generalizing position free level branches with
  | done =>
      cases isLevel
      cases areBranches
      exact .done
  | next shape beyond induction =>
      cases areBranches
      rw [matchNext?_next] at isLevel
      split at isLevel
      · contradiction
      · next follower isFollower =>
          split at isLevel
          · next has =>
              rcases Option.map_eq_some_iff.mp isLevel with ⟨further, isFurther, rfl⟩
              rcases match?_eq_some_iff.mp isFurther with ⟨_, _, level, branches, rfl⟩
              exact .next isFollower has (induction (List.Subset.refl _) level branches)
          · contradiction
  | branch shape inside others inner outer =>
      have othersLevel : others.matchNext? scene position = some level := by
        rwa [matchNext?] at isLevel
      rw [matchBranches?_branch] at areBranches
      rcases List.exists_of_findSome?_eq_some areBranches with
        ⟨⟨head, rest⟩, isPick, areBranches⟩
      dsimp only at areBranches
      split at areBranches
      · next has =>
          rcases Option.bind_eq_some_iff.mp areBranches with
            ⟨places, isInner, areBranches⟩
          rcases Option.map_eq_some_iff.mp areBranches with ⟨further, areFurther, rfl⟩
          rcases match?_eq_some_iff.mp isInner with ⟨_, _, innerLevel, innerBranches, rfl⟩
          rcases List.append_of_mem isPick with ⟨before, after, split⟩
          rcases eq_append_of_picks split with ⟨areFree, areRest⟩
          have headChild : head ∈ scene.children position := by
            apply areChildren
            simp [areFree]
          have restChildren : rest ⊆ scene.children position := by
            intro place member
            apply areChildren
            rw [areRest] at member
            rw [areFree]
            grind
          have innerStands := inner (List.Subset.refl _) innerLevel innerBranches
          have outerStands := outer restChildren othersLevel areFurther
          rw [List.cons_append, List.append_assoc]
          exact .branch headChild has innerStands outerStands
      · contradiction

theorem stands_of_match? {tree : ContextTree}
    (matched : tree.match? scene position = some places) :
    tree.Stands scene position places := by
  rcases match?_eq_some_iff.mp matched with ⟨level, branches, isLevel, areBranches, rfl⟩
  exact tree.stands_of_parts (List.Subset.refl _) isLevel areBranches

theorem Stands.of_hang {held rest : ContextTree}
    (stands : (held.hang rest).Stands scene position places) :
    ∃ front back, places = front ++ back ∧ Stands scene (held.hang .done) position front ∧
      rest.Stands scene position back := by
  induction held generalizing places with
  | done => exact ⟨[], places, rfl, .done, stands⟩
  | next shape beyond =>
      cases stands with
      | @branch _ _ _ _ head inner outer isChild has insideStands restStands =>
          exact ⟨head :: (inner ++ []), outer, by simp,
            .branch isChild has insideStands .done, restStands⟩
  | branch shape inside others _ induction =>
      cases stands with
      | @branch _ _ _ _ head inner outer isChild has insideStands othersStand =>
          rcases induction othersStand with ⟨front, back, rfl, frontStands, backStands⟩
          exact ⟨head :: (inner ++ front), back, by simp,
            .branch isChild has insideStands frontStands, backStands⟩

end ContextTree

/-! ## Anchors -/

namespace Scene.Anchor

variable {scene : Scene} {anchor : Anchor} {places : List Nat}

def Stands (scene : Scene) (anchor : Anchor) (tree : ContextTree)
    (places : List Nat) : Prop :=
  (if anchor.startsBranch then tree.hang .done else tree).Stands scene
    anchor.position places

theorem Stands.of_done (stands : anchor.Stands scene .done places) : places = [] := by
  have done : ContextTree.Stands scene .done anchor.position places := by
    rw [Stands] at stands
    split at stands
    · exact stands
    · exact stands
  cases done
  rfl

theorem Stands.of_hang {held rest : ContextTree}
    (stands : anchor.Stands scene (held.hang rest) places) :
    ∃ front back, places = front ++ back ∧
      ({ anchor with startsBranch := true } : Anchor).Stands scene held front ∧
      anchor.Stands scene rest back := by
  unfold Stands at stands ⊢
  cases isBranch : anchor.startsBranch with
  | false =>
      rw [isBranch] at stands
      exact ContextTree.Stands.of_hang stands
  | true =>
      rw [isBranch] at stands
      simp only [if_true, ContextTree.hang_hang] at stands ⊢
      exact ContextTree.Stands.of_hang stands

theorem Stands.of_next {shape : Shape} {beyond : ContextTree}
    (stands : anchor.Stands scene (.next shape beyond) places) :
    ∃ place further, places = place :: further ∧ anchor.Holds scene place ∧
      scene.hasShape place shape = true ∧
      Stands scene ⟨place, false⟩ beyond further := by
  unfold Stands at stands
  unfold Holds
  cases isBranch : anchor.startsBranch with
  | false =>
      rw [isBranch] at stands
      cases stands with
      | next isFollower has further => exact ⟨_, _, rfl, isFollower, has, further⟩
  | true =>
      rw [isBranch] at stands
      cases stands with
      | branch isChild has further nothing =>
          cases nothing
          exact ⟨_, _, rfl, isChild, has, by simpa [Stands] using further⟩

/-- The positions are those of what hangs on the anchor and, behind each further closing
bracket, of what hangs on the anchor that it leads back to. -/
def StandFrom (scene : Scene) :
    Anchor → ContextTree → List Anchor → List ContextTree → List Nat → Prop
  | anchor, tree, [], further, places =>
    anchor.Stands scene (further.foldl ContextTree.append tree) places
  | anchor, tree, _ :: _, [], places => anchor.Stands scene tree places
  | anchor, tree, saved :: outer, rest :: further, places =>
    ∃ front back, places = front ++ back ∧ anchor.Stands scene tree front ∧
      StandFrom scene saved rest outer further back

variable {outer : List Anchor} {further : List ContextTree}

theorem StandFrom.of_hang {held : ContextTree}
    (stand : StandFrom scene anchor (held.hang (further.headD .done)) outer
      further.tail places) :
    StandFrom scene { anchor with startsBranch := true } held (anchor :: outer)
      further places := by
  cases further with
  | nil =>
      have stands : anchor.Stands scene (held.hang .done) places := by
        cases outer with
        | nil => exact stand
        | cons => exact stand
      rcases stands.of_hang with ⟨front, back, rfl, heldStands, nothing⟩
      rw [nothing.of_done, List.append_nil]
      exact heldStands
  | cons rest further =>
      cases outer with
      | nil =>
          rw [StandFrom, List.headD_cons, ContextTree.foldl_append_hang] at stand
          exact stand.of_hang
      | cons saved outer =>
          cases further with
          | nil => exact Stands.of_hang stand
          | cons other further =>
              rcases stand with ⟨both, last, rfl, stands, lastStand⟩
              rcases stands.of_hang with ⟨front, back, rfl, heldStands, restStands⟩
              exact ⟨front, back ++ last, by simp, heldStands, back, last, rfl,
                restStands, lastStand⟩

theorem StandFrom.of_closing {tree : ContextTree}
    (stand : StandFrom scene anchor .done outer (tree :: further) places) :
    StandFrom scene (outer.headD anchor) tree outer.tail further places := by
  cases outer with
  | nil => exact stand
  | cons saved outer =>
      rcases stand with ⟨front, back, rfl, nothing, stand⟩
      rw [nothing.of_done, List.nil_append]
      exact stand

theorem StandFrom.of_next {shape : Shape} {beyond : ContextTree}
    (stand : StandFrom scene anchor (.next shape beyond) outer further places) :
    ∃ place rest, places = place :: rest ∧ anchor.Holds scene place ∧
      scene.hasShape place shape = true ∧
      StandFrom scene ⟨place, false⟩ beyond outer further rest := by
  cases outer with
  | nil =>
      rw [StandFrom, ContextTree.foldl_append_next] at stand
      exact stand.of_next
  | cons saved outer =>
      cases further with
      | nil => exact Stands.of_next stand
      | cons tree further =>
          rcases stand with ⟨front, back, rfl, stands, stand⟩
          rcases stands.of_next with ⟨place, rest, rfl, holds, has, standsBeyond⟩
          exact ⟨place, rest ++ back, rfl, holds, has, rest, back, rfl,
            standsBeyond, stand⟩

end Scene.Anchor

/-! ## Right contexts -/

namespace RightContext

variable {Member : Type} {scene : Scene} {shape : Member → Shape} {places : List Nat}

theorem exists_behind_of_standFrom (symbols : List Member) {anchor : Anchor}
    {outer : List Anchor}
    (stand :
      let (tree, further) := ContextTree.readBack scene.branches (symbols.map shape)
      Anchor.StandFrom scene anchor tree outer further places) :
    ∃ found, Behind scene shape anchor outer symbols found ∧
      found.map Prod.snd = places := by
  induction symbols generalizing anchor outer places with
  | nil =>
      have nothing : anchor.Stands scene .done places := by
        cases outer with
        | nil => exact stand
        | cons => exact stand
      exact ⟨[], .nil, nothing.of_done.symm⟩
  | cons symbol rest induction =>
      simp only [List.map_cons, ContextTree.readBack] at stand
      by_cases isOpening : (shape symbol).symbol = scene.branches.opening
      · rw [if_pos isOpening] at stand
        rcases induction stand.of_hang with ⟨found, behind, arePlaces⟩
        exact ⟨found, .opening isOpening behind, arePlaces⟩
      · rw [if_neg isOpening] at stand
        by_cases isClosing : (shape symbol).symbol = scene.branches.closing
        · rw [if_pos isClosing] at stand
          rcases induction stand.of_closing with ⟨found, behind, arePlaces⟩
          exact ⟨found, .closing isOpening isClosing behind, arePlaces⟩
        · rw [if_neg isClosing] at stand
          rcases stand.of_next with ⟨place, further, rfl, holds, has, stand⟩
          rcases induction stand with ⟨found, behind, rfl⟩
          have notBracket : scene.branches.contains (shape symbol).symbol = false := by
            simp [BranchPair.contains, isOpening, isClosing]
          exact ⟨_, .symbol notBracket holds has behind, rfl⟩

theorem exists_behind_of_match? {symbols : List Member} {position : Nat}
    (matched : (ofShapes scene.branches (symbols.map shape)).match? scene position =
      some places) :
    ∃ found, Behind scene shape ⟨position, false⟩ [] symbols found ∧
      found.map Prod.snd = places := by
  apply exists_behind_of_standFrom
  rw [ofShapes_eq_layout, match?_layout] at matched
  exact ContextTree.stands_of_match? matched

end RightContext

end LSystems
