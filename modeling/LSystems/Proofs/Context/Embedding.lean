import LSystems.Proofs.Context.InPlace
import LSystems.Proofs.Context.Parents
import LSystems.Proofs.Context.Reading

/-!
# Embeddings of right contexts

An embedding says at which position each symbol of a right context is found. Matching
finds one whenever there is one, and of several it finds the one whose branches come
earliest in the word. Main statement: `match?_ofShapes_iff`.
-/

namespace LSystems

/-- Positions for the symbols of a right context, laid out as the context is. -/
inductive Embedding
  | done
  | next (follower : Nat) (beyond : Embedding)
  | branch (head : Nat) (inside others : Embedding)

namespace Embedding

def positions : Embedding → List Nat
  | done => []
  | next follower beyond => follower :: beyond.positions
  | branch head inside others => head :: (inside.positions ++ others.positions)

def heads : Embedding → List Nat
  | done | next _ _ => []
  | branch head _ others => head :: others.heads

/-- The embedding is one of the context behind the position: what follows on a level is
a successor, and the branches of one symbol are different children of its position. -/
inductive Fits (scene : Scene) : ContextTree → Nat → Embedding → Prop
  | done {position} : Fits scene .done position done
  | next {position shape beyond follower embedding} :
      scene.successor? position = some follower → scene.hasShape follower shape = true →
      Fits scene beyond follower embedding →
      Fits scene (.next shape beyond) position (next follower embedding)
  | branch {position shape inside others head inner outer} :
      head ∈ scene.children position → head ∉ outer.heads →
        scene.hasShape head shape = true →
      Fits scene inside head inner → Fits scene others position outer →
      Fits scene (.branch shape inside others) position (branch head inner outer)

/-- What hangs on each position of an embedding: the rest of the context, the position,
and the rest of the embedding. -/
def hanging : ContextTree → Embedding → List (ContextTree × Nat × Embedding)
  | .next _ beyond, next follower embedding =>
      (beyond, follower, embedding) :: hanging beyond embedding
  | .branch _ inside others, branch head inner outer =>
      (inside, head, inner) :: (hanging inside inner ++ hanging others outer)
  | _, _ => []

/-- No embedding of the tree behind the position has branches, in the order in which
they are written, at lexicographically earlier positions. -/
def Earliest (scene : Scene) (node : ContextTree × Nat × Embedding) : Prop :=
  ∀ other, Fits scene node.1 node.2.1 other →
    ¬ List.Lex (· < ·) other.heads node.2.2.heads

variable {scene : Scene} {tree : ContextTree} {position : Nat} {embedding : Embedding}

/-! ## Search -/

theorem Fits.heads_subset (fits : Fits scene tree position embedding) :
    embedding.heads ⊆ scene.children position := by
  induction fits with
  | done => exact List.nil_subset _
  | next => exact List.nil_subset _
  | branch member _ _ _ _ _ outer => exact List.cons_subset.mpr ⟨member, outer⟩

private theorem subset_of_pick {chosen free rest : List Nat} {head : Nat}
    (isPick : (head, rest) ∈ picks free) (available : chosen ⊆ free)
    (fresh : head ∉ chosen) :
    chosen ⊆ rest := by
  obtain ⟨before, after, split⟩ := List.append_of_mem isPick
  obtain ⟨isFree, rfl⟩ := eq_append_of_picks split
  intro other member
  have different : other ≠ head := by
    rintro rfl
    exact fresh member
  simpa [isFree, different] using available member

private theorem exists_pick {free : List Nat} {head : Nat} (headFree : head ∈ free) :
    ∃ rest, (head, rest) ∈ picks free := by
  rw [← map_fst_picks free] at headFree
  obtain ⟨⟨picked, rest⟩, isPick, isHead⟩ := List.mem_map.mp headFree
  exact ⟨rest, isHead ▸ isPick⟩

private theorem isSome_match? (level : (tree.matchNext? scene position).isSome)
    (branches : (tree.matchBranches? scene (scene.children position)).isSome) :
    (tree.match? scene position).isSome := by
  obtain ⟨level, isLevel⟩ := Option.isSome_iff_exists.mp level
  simpa [ContextTree.match?, isLevel] using branches

theorem Fits.isSome_parts (fits : Fits scene tree position embedding) :
    (tree.matchNext? scene position).isSome ∧
      ∀ free, embedding.heads ⊆ free → (tree.matchBranches? scene free).isSome := by
  induction fits with
  | done => exact ⟨rfl, fun _ _ => rfl⟩
  | next isSuccessor has fits induction =>
      refine ⟨?_, fun _ _ => rfl⟩
      have further := isSome_match? induction.1 (induction.2 _ fits.heads_subset)
      simpa [ContextTree.matchNext?_next, isSuccessor, has] using further
  | @branch _ _ _ _ head _ outer _ fresh has innerFits _ inner outerParts =>
      refine ⟨outerParts.1, fun free available => ?_⟩
      obtain ⟨headFree, outerFree⟩ := List.cons_subset.mp available
      obtain ⟨rest, isPick⟩ := exists_pick headFree
      have isInner := isSome_match? inner.1 (inner.2 _ innerFits.heads_subset)
      obtain ⟨positions, isInner⟩ := Option.isSome_iff_exists.mp isInner
      rw [ContextTree.matchBranches?_branch, List.findSome?_isSome_iff]
      refine ⟨(head, rest), isPick, ?_⟩
      simpa [has, isInner] using outerParts.2 rest (subset_of_pick isPick outerFree fresh)

theorem Fits.isSome (fits : Fits scene tree position embedding) :
    (tree.match? scene position).isSome :=
  isSome_match? fits.isSome_parts.1 (fits.isSome_parts.2 _ fits.heads_subset)

private theorem Fits.exists_found {shape : Shape}
    {inside others : ContextTree} {head : Nat} {free rest : List Nat}
    (fits : Fits scene (.branch shape inside others) position embedding)
    (available : embedding.heads ⊆ free) (isHead : head ∈ embedding.heads.head?)
    (isPick : (head, rest) ∈ picks free) :
    ∃ found, (if scene.hasShape head shape = true then
        (inside.match? scene head).bind fun inner =>
          (others.matchBranches? scene rest).map fun further => head :: (inner ++ further)
      else none) = some found := by
  cases fits with
  | branch _ fresh has innerFits outerFits =>
      cases isHead
      have outerFree := subset_of_pick isPick (List.cons_subset.mp available).2 fresh
      obtain ⟨inner, isInner⟩ := Option.isSome_iff_exists.mp innerFits.isSome
      obtain ⟨further, isFurther⟩ := Option.isSome_iff_exists.mp
        (outerFits.isSome_parts.2 rest outerFree)
      exact ⟨head :: (inner ++ further), by simp [has, isInner, isFurther]⟩

/-- What is known of the embedding that the search finds among free branches. -/
structure Chosen (scene : Scene) (tree : ContextTree) (position : Nat) (free : List Nat)
    (embedding : Embedding) : Prop where
  fits : Fits scene tree position embedding
  heads_subset : embedding.heads ⊆ free
  earliest : ∀ other, Fits scene tree position other → other.heads ⊆ free →
    ¬ List.Lex (· < ·) other.heads embedding.heads
  hanging_earliest : ∀ node ∈ hanging tree embedding, Earliest scene node

theorem Chosen.earliest_of_children
    (chosen : Chosen scene tree position (scene.children position) embedding) :
    Earliest scene (tree, position, embedding) :=
  fun other fits => chosen.earliest other fits fits.heads_subset

private theorem Chosen.next {shape : Shape} {beyond : ContextTree} {free : List Nat}
    {follower : Nat} (isSuccessor : scene.successor? position = some follower)
    (has : scene.hasShape follower shape = true)
    (chosen : Chosen scene beyond follower (scene.children follower) embedding) :
    Chosen scene (.next shape beyond) position free (.next follower embedding) where
  fits := .next isSuccessor has chosen.fits
  heads_subset := List.nil_subset _
  earliest := fun _ _ _ => List.not_lex_nil
  hanging_earliest := by
    intro node member
    rcases List.mem_cons.mp member with rfl | member
    · exact chosen.earliest_of_children
    · exact chosen.hanging_earliest node member

private theorem Chosen.branch {shape : Shape} {inside others : ContextTree}
    {before after : List Nat} {head : Nat} {inner outer : Embedding}
    (sorted : (before ++ head :: after).Pairwise (· < ·))
    (subset : before ++ head :: after ⊆ scene.children position)
    (has : scene.hasShape head shape = true)
    (innerChosen : Chosen scene inside head (scene.children head) inner)
    (outerChosen : Chosen scene others position (before ++ after) outer)
    (first : ∀ other, Fits scene (.branch shape inside others) position other →
      other.heads ⊆ before ++ head :: after → ∀ earlier ∈ other.heads.head?,
      earlier ∉ before) :
    Chosen scene (.branch shape inside others) position (before ++ head :: after)
      (.branch head inner outer) where
  fits := by
    refine .branch (subset (by simp)) (fun member => ?_) has innerChosen.fits
      outerChosen.fits
    have nodup : (before ++ head :: after).Nodup := sorted.imp Nat.ne_of_lt
    have apart := (List.nodup_cons.mp (List.perm_middle.nodup_iff.mp nodup)).1
    exact apart (outerChosen.heads_subset member)
  heads_subset := by
    refine List.cons_subset.mpr ⟨by simp, fun other member => ?_⟩
    have isRest := outerChosen.heads_subset member
    rw [List.mem_append] at isRest ⊢
    exact isRest.imp id (List.mem_cons_of_mem _)
  earliest := by
    intro other fits available
    cases fits with
    | @branch _ _ _ _ otherHead otherInner otherOuter member fresh alsoHas
        innerFits outerFits =>
        have notBefore :=
          first _ (.branch member fresh alsoHas innerFits outerFits) available
          otherHead rfl
        obtain ⟨headFree, outerFree⟩ := List.cons_subset.mp available
        intro earlier
        cases earlier with
        | rel isLess =>
            have behind : ∀ place ∈ head :: after, head ≤ place := by
              have tail := List.pairwise_cons.mp (List.pairwise_append.mp sorted).2.1
              exact List.forall_mem_cons.mpr
                ⟨Nat.le_refl _, fun place member => Nat.le_of_lt (tail.1 place member)⟩
            rcases List.mem_append.mp headFree with isBefore | atOrBehind
            · exact notBefore isBefore
            · exact Nat.not_lt_of_le (behind _ atOrBehind) isLess
        | cons further =>
            refine outerChosen.earliest _ outerFits (fun place isHead => ?_) further
            have different : place ≠ head := by
              rintro rfl
              exact fresh isHead
            simpa [different] using outerFree isHead
  hanging_earliest := by
    intro node member
    rcases List.mem_cons.mp member with rfl | member
    · exact innerChosen.earliest_of_children
    · rcases List.mem_append.mp member with member | member
      · exact innerChosen.hanging_earliest node member
      · exact outerChosen.hanging_earliest node member

private theorem exists_chosen_of_parts (regular : scene.Regular) {positions : List Nat}
    (parts : ∀ {position : Nat} {free level branches : List Nat}, free.Pairwise (· < ·) →
      free ⊆ scene.children position → tree.matchNext? scene position = some level →
      tree.matchBranches? scene free = some branches →
      ∃ embedding, Chosen scene tree position free embedding ∧
        embedding.positions = branches ++ level)
    (found : tree.match? scene position = some positions) :
    ∃ embedding, Chosen scene tree position (scene.children position) embedding ∧
      embedding.positions = positions := by
  obtain ⟨level, branches, isLevel, areBranches, rfl⟩ :=
    ContextTree.match?_eq_some_iff.mp found
  exact parts (Scene.children_sorted regular position) (List.Subset.refl _)
    isLevel areBranches

private theorem exists_chosen_parts (regular : scene.Regular) (tree : ContextTree)
    {position : Nat} {free level branches : List Nat} (sorted : free.Pairwise (· < ·))
    (subset : free ⊆ scene.children position)
    (isLevel : tree.matchNext? scene position = some level)
    (areBranches : tree.matchBranches? scene free = some branches) :
    ∃ embedding, Chosen scene tree position free embedding ∧
      embedding.positions = branches ++ level := by
  induction tree generalizing position free level branches with
  | done =>
      cases isLevel
      cases areBranches
      exact ⟨.done,
        ⟨.done, List.nil_subset _, fun _ _ _ => List.not_lex_nil, by simp [hanging]⟩, rfl⟩
  | next shape beyond induction =>
      cases areBranches
      rw [ContextTree.matchNext?_next] at isLevel
      split at isLevel
      · contradiction
      · next follower isSuccessor =>
          split at isLevel
          · next has =>
              obtain ⟨further, isFurther, rfl⟩ := Option.map_eq_some_iff.mp isLevel
              obtain ⟨embedding, chosen, rfl⟩ :=
                exists_chosen_of_parts regular induction isFurther
              exact ⟨.next follower embedding, .next isSuccessor has chosen, rfl⟩
          · contradiction
  | branch shape inside others inner outer =>
      rw [ContextTree.matchNext?] at isLevel
      rw [ContextTree.matchBranches?_branch, List.findSome?_eq_some_iff] at areBranches
      obtain ⟨before, ⟨head, rest⟩, after, isPick, found, fails⟩ := areBranches
      obtain ⟨rfl, rfl⟩ := eq_append_of_picks isPick
      dsimp only at found
      split at found
      · next has =>
          obtain ⟨positions, isInner, found⟩ := Option.bind_eq_some_iff.mp found
          obtain ⟨further, isFurther, rfl⟩ := Option.map_eq_some_iff.mp found
          obtain ⟨innerEmbedding, innerChosen, rfl⟩ :=
            exists_chosen_of_parts regular inner isInner
          have isSublist : List.Sublist (before.map Prod.fst ++ after.map Prod.fst)
              (before.map Prod.fst ++ head :: after.map Prod.fst) :=
            (List.sublist_cons_self ..).append_left _
          obtain ⟨outerEmbedding, outerChosen, outerPositions⟩ := outer
            (sorted.sublist isSublist) (List.Subset.trans isSublist.subset subset)
              isLevel isFurther
          refine ⟨.branch head innerEmbedding outerEmbedding,
            innerChosen.branch sorted subset has outerChosen ?_, ?_⟩
          · -- A head that was tried before has failed, but with an embedding that has it
            -- as its first head the search would have succeeded there.
            intro other fits available earlier isHead isBefore
            obtain ⟨⟨picked, left⟩, wasTried, rfl⟩ := List.mem_map.mp isBefore
            have earlierPick : (picked, left) ∈
                picks (before.map Prod.fst ++ head :: after.map Prod.fst) := by
              rw [isPick]
              exact List.mem_append_left _ wasTried
            obtain ⟨found, succeeds⟩ := fits.exists_found available isHead earlierPick
            cases (fails _ wasTried).symm.trans succeeds
          · simp [positions, outerPositions]
      · contradiction

theorem exists_chosen (regular : scene.Regular) {positions : List Nat}
    (found : tree.match? scene position = some positions) :
    ∃ embedding, Chosen scene tree position (scene.children position) embedding ∧
      embedding.positions = positions :=
  exists_chosen_of_parts regular (exists_chosen_parts regular tree) found

/-! ## Places of an embedding -/

theorem Fits.hasShape (fits : Fits scene context position embedding) :
    List.Forall₂ (fun shape place => scene.hasShape place shape = true) context.shapes
      embedding.positions := by
  induction fits with
  | done => exact .nil
  | next _ has _ induction => exact .cons has induction
  | branch _ _ has _ _ inner outer => exact .cons has (List.rel_append inner outer)

theorem Fits.descends (regular : scene.Regular)
    (fits : Fits scene context position embedding) {place : Nat}
    (member : place ∈ embedding.positions) :
    ∃ child, (scene.successor? position = some child ∨ child ∈ embedding.heads) ∧
      scene.Linked position child ∧ scene.Descends place child := by
  induction fits with
  | done => contradiction
  | @next _ _ _ follower _ isSuccessor _ _ induction =>
      have linked : scene.Linked _ follower := .inl isSuccessor
      refine ⟨follower, .inl isSuccessor, linked, ?_⟩
      rcases List.mem_cons.mp member with rfl | member
      · exact .refl
      · obtain ⟨child, _, further, descends⟩ := induction member
        refine descends.tail ?_
        exact (Scene.parent?_eq_some_iff_linked regular (further.visible regular)).mpr
          ⟨linked.visible regular, further⟩
  | @branch _ _ _ _ head _ _ isChild _ _ _ _ inner outer =>
      have linked : scene.Linked _ head := .inr isChild
      rcases List.mem_cons.mp member with rfl | member
      · exact ⟨_, .inr (List.mem_cons_self ..), linked, .refl⟩
      rcases List.mem_append.mp member with member | member
      · obtain ⟨child, _, further, descends⟩ := inner member
        refine ⟨head, .inr (List.mem_cons_self ..), linked, descends.tail ?_⟩
        exact (Scene.parent?_eq_some_iff_linked regular (further.visible regular)).mpr
          ⟨linked.visible regular, further⟩
      · obtain ⟨child, isNext | isHead, linked, descends⟩ := outer member
        · exact ⟨child, .inl isNext, linked, descends⟩
        · exact ⟨child, .inr (List.mem_cons_of_mem _ isHead), linked, descends⟩

theorem Fits.lt (regular : scene.Regular) (fits : Fits scene context position embedding)
    {place : Nat} (member : place ∈ embedding.positions) : position < place := by
  obtain ⟨child, _, linked, descends⟩ := fits.descends regular member
  exact Nat.lt_of_lt_of_le (linked.lt regular) (descends.le regular)

theorem Fits.nodup (regular : scene.Regular)
    (fits : Fits scene context position embedding) :
    embedding.positions.Nodup := by
  induction fits with
  | done => exact .nil
  | next _ _ fits induction =>
      refine List.nodup_cons.mpr ⟨fun member => ?_, induction⟩
      exact Nat.lt_irrefl _ (fits.lt regular member)
  | @branch position _ _ _ head inner outer isChild fresh _ innerFits outerFits innerNodup
        outerNodup =>
      have linked : scene.Linked position head := .inr isChild
      -- What is behind the head does not descend from another child.
      have apart : ∀ place, scene.Descends place head → place ∉ outer.positions := by
        intro place descends member
        obtain ⟨child, origin, alsoLinked, alsoDescends⟩ :=
          outerFits.descends regular member
        obtain rfl := linked.unique regular alsoLinked descends alsoDescends
        rcases origin with isSuccessor | isHead
        · exact Scene.not_mem_children_of_successor? regular isSuccessor isChild
        · exact fresh isHead
      refine List.nodup_cons.mpr ⟨fun member => ?_, List.nodup_append.mpr
        ⟨innerNodup, outerNodup, ?_⟩⟩
      · rcases List.mem_append.mp member with member | member
        · exact Nat.lt_irrefl _ (innerFits.lt regular member)
        · exact apart head .refl member
      · rintro place member _ alsoMember rfl
        obtain ⟨child, _, further, descends⟩ := innerFits.descends regular member
        refine apart place (descends.tail ?_) alsoMember
        exact (Scene.parent?_eq_some_iff_linked regular (further.visible regular)).mpr
          ⟨linked.visible regular, further⟩

/-! ## Embeddings of the nodes -/

/-- The embedding of a tree whose nodes are numbered from `first`, given by the
positions of the nodes. -/
def ofImage (image : Nat → Nat) : ContextTree → Nat → Embedding
  | .done, _ => done
  | .next _ beyond, first => next (image first) (ofImage image beyond (first + 1))
  | .branch _ inside others, first =>
    branch (image first) (ofImage image inside (first + 1))
      (ofImage image others (first + inside.size + 1))

@[simp]
theorem heads_ofImage (image : Nat → Nat) (tree : ContextTree) (first : Nat) :
    (ofImage image tree first).heads = (tree.links first).branches.map image := by
  induction tree generalizing first with
  | done => rfl
  | next => rfl
  | branch shape inside others _ induction =>
      simp [ofImage, heads, ContextTree.links, induction]

theorem Fits.eq_ofImage {image : Nat → Nat} (fits : Fits scene tree position embedding)
    {first : Nat}
    (positions : embedding.positions = (List.range' first tree.size).map image) :
    embedding = ofImage image tree first := by
  induction fits generalizing first with
  | done => rfl
  | next _ _ _ induction =>
      obtain ⟨rfl, rest⟩ := List.cons.inj positions
      rw [ofImage, induction rest]
  | @branch _ _ inside others _ _ _ _ _ _ innerFits _ inner outer =>
      rw [ContextTree.size, List.range'_succ] at positions
      obtain ⟨rfl, rest⟩ := List.cons.inj positions
      have length := innerFits.hasShape.length_eq
      rw [ContextTree.length_shapes] at length
      rw [← List.range'_append_1, List.map_append] at rest
      obtain ⟨isInner, isOuter⟩ := List.append_inj rest (by simp [← length])
      rw [Nat.add_right_comm] at isOuter
      rw [ofImage, inner isInner, outer isOuter]

end Embedding

namespace RightContext

/-- What the links lead to is found at the position: a follower at its successor, the
branches at different children. -/
structure Hangs (scene : Scene) (image : Nat → Nat) (links : Links)
    (position : Nat) : Prop where
  follower : ∀ id ∈ links.follower, scene.successor? position = some (image id)
  branches : ∀ id ∈ links.branches, image id ∈ scene.children position
  distinct : (links.branches.map image).Nodup

/-- The context is found behind the position, with every node at its image. -/
structure Embeds (scene : Scene) (context : RightContext) (position : Nat)
    (image : Nat → Nat) : Prop where
  root : Hangs scene image context.root position
  node : ∀ id node, context.nodes[id]? = some node →
    scene.hasShape (image id) node.shape = true ∧ Hangs scene image node.links (image id)

open LSystems.Embedding

variable {scene : Scene} {context : RightContext} {image : Nat → Nat}

theorem Hangs.fits {tree : ContextTree} {first position : Nat}
    (contains : context.Contains tree first)
    (hangs : Hangs scene image (tree.links first) position)
    (nodes : ∀ id node, context.nodes[id]? = some node →
      scene.hasShape (image id) node.shape = true ∧
      Hangs scene image node.links (image id)) :
    Fits scene tree position (ofImage image tree first) := by
  induction tree generalizing first position with
  | done => exact .done
  | next shape beyond induction =>
      obtain ⟨isNode, containsBeyond⟩ := contains
      obtain ⟨has, further⟩ := nodes _ _ isNode
      exact .next (hangs.follower _ rfl) has (induction containsBeyond further)
  | branch shape inside others inner outer =>
      obtain ⟨isNode, containsInside, containsOthers⟩ := contains
      obtain ⟨has, further⟩ := nodes _ _ isNode
      obtain ⟨fresh, distinct⟩ := List.nodup_cons.mp hangs.distinct
      refine .branch (hangs.branches _ (List.mem_cons_self ..)) (by simpa using fresh) has
        (inner containsInside further)
          (outer containsOthers ⟨hangs.follower, ?_, distinct⟩)
      exact fun id member => hangs.branches id (List.mem_cons_of_mem _ member)

theorem hangs_of_fits {tree : ContextTree} {first position : Nat}
    (contains : context.Contains tree first)
    (fits : Fits scene tree position (ofImage image tree first)) :
    Hangs scene image (tree.links first) position ∧
      ∀ id node, first ≤ id → id < first + tree.size → context.nodes[id]? = some node →
        scene.hasShape (image id) node.shape = true ∧
        Hangs scene image node.links (image id) := by
  induction tree generalizing first position with
  | done =>
      refine ⟨⟨nofun, nofun, List.nodup_nil⟩, fun id node behind inside _ => ?_⟩
      exact absurd inside (Nat.not_lt_of_le behind)
  | next shape beyond induction =>
      obtain ⟨isNode, containsBeyond⟩ := contains
      cases fits with
      | next isSuccessor has fits =>
          obtain ⟨hangs, nodes⟩ := induction containsBeyond fits
          refine ⟨⟨?_, nofun, List.nodup_nil⟩, fun id node behind inside found => ?_⟩
          · rintro _ ⟨⟩
            exact isSuccessor
          · rw [ContextTree.size] at inside
            rcases Nat.eq_or_lt_of_le behind with rfl | behind
            · cases isNode.symm.trans found
              exact ⟨has, hangs⟩
            · exact nodes id node behind (by omega) found
  | branch shape inside others inner outer =>
      obtain ⟨isNode, containsInside, containsOthers⟩ := contains
      cases fits with
      | branch isChild fresh has innerFits outerFits =>
          obtain ⟨innerHangs, innerNodes⟩ := inner containsInside innerFits
          obtain ⟨outerHangs, outerNodes⟩ := outer containsOthers outerFits
          rw [heads_ofImage] at fresh
          refine ⟨⟨outerHangs.follower, ?_,
            List.nodup_cons.mpr ⟨fresh, outerHangs.distinct⟩⟩,
            fun id node behind isInside found => ?_⟩
          · exact List.forall_mem_cons.mpr ⟨isChild, outerHangs.branches⟩
          · rw [ContextTree.size] at isInside
            rcases Nat.eq_or_lt_of_le behind with rfl | behind
            · cases isNode.symm.trans found
              exact ⟨has, innerHangs⟩
            · by_cases isInner : id < first + 1 + inside.size
              · exact innerNodes id node behind isInner found
              · exact outerNodes id node (by omega) (by omega) found

theorem exists_hanging (image : Nat → Nat) {tree : ContextTree} {first : Nat}
    (contains : context.Contains tree first) {id : Nat} {node : ContextNode}
    (behind : first ≤ id) (inside : id < first + tree.size)
    (isNode : context.nodes[id]? = some node) :
    ∃ part : ContextTree, context.Contains part (id + 1) ∧
      part.links (id + 1) = node.links ∧
      (part, image id, ofImage image part (id + 1)) ∈
        hanging tree (ofImage image tree first) := by
  induction tree generalizing first with
  | done => exact absurd inside (Nat.not_lt_of_le behind)
  | next shape beyond induction =>
      obtain ⟨isFirst, containsBeyond⟩ := contains
      rw [ContextTree.size] at inside
      rcases Nat.eq_or_lt_of_le behind with rfl | behind
      · cases isFirst.symm.trans isNode
        exact ⟨beyond, containsBeyond, rfl, List.mem_cons_self ..⟩
      · obtain ⟨part, containsPart, links, member⟩ :=
          induction containsBeyond behind (by omega)
        exact ⟨part, containsPart, links, List.mem_cons_of_mem _ member⟩
  | branch shape inner others innerInduction outerInduction =>
      obtain ⟨isFirst, containsInner, containsOthers⟩ := contains
      rw [ContextTree.size] at inside
      rcases Nat.eq_or_lt_of_le behind with rfl | behind
      · cases isFirst.symm.trans isNode
        exact ⟨inner, containsInner, rfl, List.mem_cons_self ..⟩
      · by_cases isInner : id < first + 1 + inner.size
        · obtain ⟨part, containsPart, links, member⟩ :=
            innerInduction containsInner behind isInner
          exact ⟨part, containsPart, links,
            List.mem_cons_of_mem _ (List.mem_append_left _ member)⟩
        · obtain ⟨part, containsPart, links, member⟩ :=
            outerInduction containsOthers (by omega) (by omega)
          exact ⟨part, containsPart, links,
            List.mem_cons_of_mem _ (List.mem_append_right _ member)⟩

theorem Embeds.fits {tree : ContextTree} {position : Nat}
    (embeds : tree.layout.Embeds scene position image) :
    Fits scene tree position (ofImage image tree 0) :=
  Hangs.fits (contains_layout tree) embeds.root embeds.node

theorem embeds_of_fits {tree : ContextTree} {position : Nat}
    (fits : Fits scene tree position (ofImage image tree 0)) :
    tree.layout.Embeds scene position image := by
  obtain ⟨root, nodes⟩ := hangs_of_fits (contains_layout tree) fits
  refine ⟨root, fun id node isNode => nodes id node (Nat.zero_le _) ?_ isNode⟩
  have inside := (Array.getElem?_eq_some_iff.mp isNode).1
  simpa [ContextTree.layout] using inside

theorem exists_embeds_of_fits {tree : ContextTree} {position : Nat}
    {embedding : Embedding} (fits : Fits scene tree position embedding) :
    ∃ image, tree.layout.Embeds scene position image ∧ embedding = ofImage image tree 0 ∧
      embedding.positions = (List.range tree.layout.size).map image := by
  have length := fits.hasShape.length_eq
  rw [ContextTree.length_shapes] at length
  let image := fun id => embedding.positions.getD id 0
  have positions : embedding.positions = (List.range tree.size).map image := by
    refine List.ext_getElem (by simp [length]) fun index inside _ => ?_
    simp [image, inside]
  have same := fits.eq_ofImage (List.range_eq_range' ▸ positions)
  refine ⟨image, embeds_of_fits (same ▸ fits), same, ?_⟩
  rwa [ContextTree.size_layout]

/-- Right contexts of a word whose brackets are not ignored. Matching succeeds exactly
where the context can be embedded, and what it returns are the positions of all nodes in
an embedding, all different and behind the position. At the position itself and at the
position of each node, no embedding that agrees there has branches at lexicographically
earlier positions; the children of a position come in the order of the word. -/
theorem match?_ofShapes_iff {branches : BranchPair Symbol} {ignored : SymbolSet}
    (opening : ignored.contains branches.opening = false)
    (closing : ignored.contains branches.closing = false) (word : Word)
    (shapes : List Shape) (position : Nat) :
    let scene := Scene.ofWord branches ignored word
    let context := ofShapes branches shapes
    ((context.match? scene position).isSome ↔
      ∃ image, context.Embeds scene position image) ∧
    (∀ place, (scene.children place).Pairwise (· < ·)) ∧
    ∀ matched, context.match? scene position = some matched →
      ∃ image, context.Embeds scene position image ∧
        matched = (List.range context.size).map image ∧
        matched.Nodup ∧ (∀ place ∈ matched, position < place) ∧
        ∀ other, context.Embeds scene position other →
          ¬ List.Lex (· < ·) (context.root.branches.map other)
            (context.root.branches.map image) ∧
          ∀ id node, context.nodes[id]? = some node → other id = image id →
            ¬ List.Lex (· < ·) (node.links.branches.map other)
              (node.links.branches.map image) := by
  intro scene context
  have regular : scene.Regular := Scene.regular_ofWord word opening closing
  obtain ⟨tree, isLayout⟩ : ∃ tree : ContextTree, context = tree.layout :=
    ⟨_, ofShapes_eq_layout branches shapes⟩
  rw [isLayout, match?_layout]
  refine ⟨⟨fun found => ?_, ?_⟩, Scene.children_sorted regular, fun matched found => ?_⟩
  · obtain ⟨matched, found⟩ := Option.isSome_iff_exists.mp found
    obtain ⟨embedding, chosen, _⟩ := exists_chosen regular found
    obtain ⟨image, embeds, _⟩ := exists_embeds_of_fits chosen.fits
    exact ⟨image, embeds⟩
  · rintro ⟨image, embeds⟩
    exact embeds.fits.isSome
  · obtain ⟨embedding, chosen, rfl⟩ := exists_chosen regular found
    obtain ⟨image, embeds, same, positions⟩ := exists_embeds_of_fits chosen.fits
    refine ⟨image, embeds, positions, chosen.fits.nodup regular,
      fun _ => chosen.fits.lt regular, fun other otherEmbeds =>
      ⟨?_, fun id node isNode agree => ?_⟩⟩
    · have earliest := chosen.earliest_of_children _ otherEmbeds.fits
      simp only [same, heads_ofImage] at earliest
      exact earliest
    · have inside := (Array.getElem?_eq_some_iff.mp isNode).1
      obtain ⟨part, contains, links, member⟩ := exists_hanging image
        (contains_layout tree) (Nat.zero_le id)
          (by simpa [ContextTree.layout] using inside) isNode
      have hangs := (otherEmbeds.node id node isNode).2
      rw [← links, agree] at hangs
      have earliest := chosen.hanging_earliest _ (same ▸ member) _
        (Hangs.fits contains hangs otherEmbeds.node)
      simp only [heads_ofImage, links] at earliest
      exact earliest

/-- Behind `A` in `A[BC][B]`, the context `[B][BC]` has to give up the first branch for
`[B]`. -/
theorem match?_ofShapes_iff_exchanged :
    let word := Word.ofSymbols [2, 0, 3, 4, 1, 0, 3, 1]
    let scene := Scene.ofWord ⟨0, 1⟩ SymbolSet.empty word
    let context :=
      ofShapes ⟨0, 1⟩ [⟨0, 0⟩, ⟨3, 0⟩, ⟨1, 0⟩, ⟨0, 0⟩, ⟨3, 0⟩, ⟨4, 0⟩, ⟨1, 0⟩]
    context.match? scene 0 = some [6, 2, 3] ∧ ∃ image, context.Embeds scene 0 image ∧
      (List.range context.size).map image = [6, 2, 3] := by
  intro word scene context
  have found : context.match? scene 0 = some [6, 2, 3] := by decide +kernel
  have opening : SymbolSet.empty.contains (BranchPair.mk 0 1).opening = false := rfl
  have closing : SymbolSet.empty.contains (BranchPair.mk 0 1).closing = false := rfl
  have agree := match?_ofShapes_iff opening closing word
    [⟨0, 0⟩, ⟨3, 0⟩, ⟨1, 0⟩, ⟨0, 0⟩, ⟨3, 0⟩, ⟨4, 0⟩, ⟨1, 0⟩] 0
  obtain ⟨image, embeds, positions, _⟩ := agree.2.2 _ found
  exact ⟨found, image, embeds, positions.symm⟩

end RightContext

end LSystems
