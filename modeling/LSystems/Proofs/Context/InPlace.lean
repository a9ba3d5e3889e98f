import LSystems.Proofs.Context.Search

/-!
# The search in place

Matching marks the branches it has taken and writes what it finds over what failed
attempts have left. In the layout of a tree, a search only writes to the places of the
nodes that it looks for; all of them are written again before it succeeds, and a failed
search leaves the marks as they were. Main statement: `match?_layout`.
-/

namespace LSystems

/-! ## Free branches -/

def freeOf (slots : List (Nat × Nat)) (used : Array Bool) : List Nat :=
  (slots.filter fun slot => used[slot.2]? = some false).map Prod.fst

theorem freeOf_unused (candidates : List Nat) :
    freeOf candidates.zipIdx (Array.replicate candidates.length false) = candidates := by
  have all : candidates.zipIdx.filter
      (fun slot => (Array.replicate candidates.length false)[slot.2]? = some false) =
        candidates.zipIdx := by
    refine List.filter_eq_self.mpr fun slot member => ?_
    have inside :=
      (List.getElem?_eq_some_iff.mp (List.mem_zipIdx_iff_getElem?.mp member)).1
    simp [inside]
  rw [freeOf, all, List.zipIdx_map_fst]

private theorem restore_used {used : Array Bool} {slot : Nat}
    (isFree : used[slot]? = some false) :
    (used.setIfInBounds slot true).setIfInBounds slot false = used := by
  have inside := (Array.getElem?_eq_some_iff.mp isFree).1
  apply Array.ext_getElem?
  intro other
  by_cases same : slot = other
  · subst same
    rw [Array.getElem?_setIfInBounds_self_of_lt (by simpa using inside), isFree]
  · simp [Array.getElem?_setIfInBounds_ne same]

private theorem freeOf_set_of_not_mem {slots : List (Nat × Nat)}
    {used : Array Bool} {slot : Nat} (other : ∀ candidate ∈ slots, candidate.2 ≠ slot) :
    freeOf slots (used.setIfInBounds slot true) = freeOf slots used := by
  rw [freeOf, freeOf]
  congr 1
  refine List.filter_congr fun candidate member => ?_
  rw [Array.getElem?_setIfInBounds_ne (Ne.symm (other candidate member))]

/-- What remains free beside a free slot is what is free once its flag is set. -/
theorem picks_freeOf {slots : List (Nat × Nat)} (distinct : (slots.map Prod.snd).Nodup)
    (used : Array Bool) :
    picks (freeOf slots used) =
      (slots.filter fun slot => used[slot.2]? = some false).map fun slot =>
        (slot.1, freeOf slots (used.setIfInBounds slot.2 true)) := by
  induction slots with
  | nil => rfl
  | cons first rest induction =>
      obtain ⟨fresh, distinct⟩ := List.nodup_cons.mp distinct
      have apart : ∀ slot ∈ rest, slot.2 ≠ first.2 := fun slot member equal =>
        fresh (equal ▸ List.mem_map_of_mem member)
      have ofRest :
          ∀ slot ∈ rest, freeOf (first :: rest) (used.setIfInBounds slot.2 true) =
          freeOf [first] used ++ freeOf rest (used.setIfInBounds slot.2 true) := by
        intro slot member
        rw [← List.singleton_append, freeOf, List.filter_append, List.map_append]
        exact congrArg (· ++ _)
          (freeOf_set_of_not_mem (by simpa using (apart slot member).symm))
      by_cases isFree : used[first.2]? = some false
      · have ofFirst :
            freeOf (first :: rest) (used.setIfInBounds first.2 true) =
            freeOf rest used := by
          rw [← freeOf_set_of_not_mem apart]
          simp [freeOf, (Array.getElem?_eq_some_iff.mp isFree).1]
        have single : freeOf [first] used = [first.1] := by simp [freeOf, isFree]
        have front : freeOf (first :: rest) used = first.1 :: freeOf rest used := by
          simp [freeOf, isFree]
        rw [front, picks, induction distinct,
          List.filter_cons_of_pos (by simpa using isFree), List.map_cons,
          ofFirst, List.map_map]
        congr 1
        refine List.map_congr_left fun slot member => ?_
        simp [ofRest slot (List.mem_of_mem_filter member), single]
      · have single : freeOf [first] used = [] := by simp [freeOf, isFree]
        have front : freeOf (first :: rest) used = freeOf rest used := by
          simp [freeOf, isFree]
        rw [front, induction distinct, List.filter_cons_of_neg (by simpa using isFree)]
        refine List.map_congr_left fun slot member => ?_
        simp [ofRest slot (List.mem_of_mem_filter member), single]

private theorem findSome?_filter {Member Result : Type} (attempt : Member → Option Result)
    (admits : Member → Bool) (list : List Member) :
    (list.filter admits).findSome? attempt =
      list.findSome? fun member => if admits member then attempt member else none := by
  induction list with
  | nil => rfl
  | cons member rest induction =>
      rw [List.filter_cons, List.findSome?_cons]
      split
      · rw [List.findSome?_cons, induction]
      · exact induction

theorem findSome?_picks {Result : Type} {slots : List (Nat × Nat)}
    (distinct : (slots.map Prod.snd).Nodup) (used : Array Bool)
    (attempt : Nat × List Nat → Option Result) :
    (picks (freeOf slots used)).findSome? attempt =
      slots.findSome? fun slot =>
        if used[slot.2]? = some false then
          attempt (slot.1, freeOf slots (used.setIfInBounds slot.2 true))
        else none := by
  rw [picks_freeOf distinct, List.findSome?_map, findSome?_filter]
  simp

/-! ## What a search leaves -/

def Holds (matched : Array Nat) : Nat → List Nat → Prop
  | _, [] => True
  | first, position :: rest =>
      matched[first]? = some position ∧ Holds matched (first + 1) rest

theorem holds_append {matched : Array Nat} {first : Nat} {positions rest : List Nat} :
    Holds matched first (positions ++ rest) ↔
      Holds matched first positions ∧ Holds matched (first + positions.length) rest := by
  induction positions generalizing first with
  | nil => simp [Holds]
  | cons position positions induction =>
      simp only [List.cons_append, Holds, induction, List.length_cons, and_assoc]
      rw [Nat.add_right_comm, Nat.add_assoc first]

theorem Holds.of_eq {matched after : Array Nat} {first : Nat} {positions : List Nat}
    (holds : Holds matched first positions)
    (same : ∀ id, first ≤ id → id < first + positions.length →
      after[id]? = matched[id]?) :
    Holds after first positions := by
  induction positions generalizing first with
  | nil => trivial
  | cons position rest induction =>
      refine ⟨?_, induction holds.2 fun id behind inside => ?_⟩
      · rw [same first (Nat.le_refl _) (by simp), holds.1]
      · exact same id (by omega) (by rw [List.length_cons]; omega)

theorem Holds.toList_eq {matched : Array Nat} {positions : List Nat}
    (holds : Holds matched 0 positions) (length : positions.length = matched.size) :
    matched.toList = positions := by
  have at_index : ∀ (positions : List Nat) (first : Nat), Holds matched first positions →
      ∀ index, index < positions.length →
        matched[first + index]? = positions[index]? := by
    intro positions
    induction positions with
    | nil => intro _ _ index inside; contradiction
    | cons position rest induction =>
        intro first holds index inside
        cases index with
        | zero => exact holds.1
        | succ index =>
            have further :=
              induction (first + 1) holds.2 index (Nat.lt_of_succ_lt_succ inside)
            rwa [Nat.add_assoc, Nat.add_comm 1] at further
  refine List.ext_getElem? fun index => ?_
  by_cases inside : index < positions.length
  · simpa using at_index positions 0 holds index inside
  · have outside : matched.toList.length ≤ index := by simp; omega
    rw [List.getElem?_eq_none outside, List.getElem?_eq_none (Nat.le_of_not_lt inside)]

/-- A search for a number of nodes succeeds if something is expected and then has
written it to their places. It writes nowhere else. -/
structure Finds (before : Array Nat) (first count : Nat) (expected : Option (List Nat))
    (result : Bool × Array Nat) : Prop where
  found : result.1 = expected.isSome
  size : result.2.size = before.size
  outside : ∀ id, id < first ∨ first + count ≤ id → result.2[id]? = before[id]?
  holds : ∀ positions, expected = some positions → Holds result.2 first positions

/-- A search that also takes branches; it sets the flags back if it fails. -/
structure Assigns (used : Array Bool) (before : Array Nat) (first count : Nat)
    (expected : Option (List Nat)) (result : Bool × Array Bool × Array Nat) : Prop where
  finds : Finds before first count expected (result.1, result.2.2)
  restored : result.1 = false → result.2.1 = used

theorem Finds.after {before between : Array Nat} {first count : Nat}
    {expected : Option (List Nat)} {result : Bool × Array Nat}
    (size : between.size = before.size)
    (outside : ∀ id, id < first ∨ first + count ≤ id → between[id]? = before[id]?)
    (finds : Finds between first count expected result) :
    Finds before first count expected result :=
  ⟨finds.found, finds.size.trans size,
    fun id isOutside => (finds.outside id isOutside).trans (outside id isOutside),
      finds.holds⟩

theorem Finds.fail {before after : Array Nat} {first count : Nat}
    (size : after.size = before.size)
    (outside : ∀ id, id < first ∨ first + count ≤ id → after[id]? = before[id]?) :
    Finds before first count none (false, after) :=
  ⟨rfl, size, outside, fun _ expected => nomatch expected⟩

theorem Finds.nothing {before : Array Nat} {first : Nat} :
    Finds before first 0 (some []) (true, before) :=
  ⟨rfl, rfl, fun _ _ => rfl, fun _ expected => Option.some.inj expected ▸ trivial⟩

theorem Finds.cons {before : Array Nat} {first count position : Nat}
    {expected : Option (List Nat)} {result : Bool × Array Nat}
    (inside : first < before.size)
    (finds : Finds (before.setIfInBounds first position) (first + 1) count
      expected result) :
    Finds before first (count + 1) (expected.map (position :: ·)) result := by
  refine ⟨?_, finds.size.trans (by simp), fun id isOutside => ?_,
    fun positions isExpected => ?_⟩
  · rw [Option.isSome_map]
    exact finds.found
  · rw [finds.outside id (by omega), Array.getElem?_setIfInBounds_ne (by omega)]
  · obtain ⟨rest, isRest, rfl⟩ := Option.map_eq_some_iff.mp isExpected
    refine ⟨?_, finds.holds rest isRest⟩
    rw [finds.outside first (.inl (Nat.lt_succ_self _))]
    exact Array.getElem?_setIfInBounds_self_of_lt inside

theorem Finds.append {before between : Array Nat} {first front back : Nat}
    {positions : List Nat} {expected : Option (List Nat)} {result : Bool × Array Nat}
    (length : positions.length = front)
    (onFront : Finds before first front (some positions) (true, between))
    (onBack : Finds between (first + front) back expected result) :
    Finds before first (front + back) (expected.map (positions ++ ·)) result := by
  refine ⟨?_, onBack.size.trans onFront.size, fun id isOutside => ?_, fun all isAll => ?_⟩
  · rw [Option.isSome_map]
    exact onBack.found
  · exact (onBack.outside id (by omega)).trans (onFront.outside id (by omega))
  · obtain ⟨rest, isRest, rfl⟩ := Option.map_eq_some_iff.mp isAll
    refine holds_append.mpr ⟨?_, length ▸ onBack.holds rest isRest⟩
    refine (onFront.holds positions rfl).of_eq fun id _ inside =>
      onBack.outside id (.inl ?_)
    rwa [length] at inside

theorem assigns_tryEach {used : Array Bool} {first count size : Nat}
    {attempt : Nat × Nat → Array Bool × Array Nat → Bool × Array Bool × Array Nat}
    {expected : Nat × Nat → Option (List Nat)} {slots : List (Nat × Nat)}
    (assigns : ∀ slot ∈ slots, ∀ matched : Array Nat, matched.size = size →
      Assigns used matched first count (expected slot) (attempt slot (used, matched)))
    {matched : Array Nat} (hasSize : matched.size = size) :
    Assigns used matched first count (slots.findSome? expected)
      (RightContext.tryEach attempt slots (used, matched)) := by
  induction slots generalizing matched with
  | nil => exact ⟨.fail rfl fun _ _ => rfl, fun _ => rfl⟩
  | cons slot rest induction =>
      obtain ⟨head, tail⟩ := List.forall_mem_cons.mp assigns
      have attempted := head matched hasSize
      rw [RightContext.tryEach, List.findSome?_cons]
      rcases isResult : attempt slot (used, matched) with ⟨_ | _, left, after⟩
      · rw [isResult] at attempted
        have failed : expected slot = none := by
          simpa using attempted.finds.found
        obtain rfl := attempted.restored rfl
        have sameSize := attempted.finds.size
        have further := induction tail (sameSize.trans hasSize)
        rw [failed]
        exact ⟨further.finds.after sameSize attempted.finds.outside, further.restored⟩
      · rw [isResult] at attempted
        obtain ⟨positions, isSome⟩ :=
          Option.isSome_iff_exists.mp attempted.finds.found.symm
        rw [isSome] at attempted ⊢
        exact attempted

/-! ## Searching a layout -/

namespace RightContext

def Contains (context : RightContext) : ContextTree → Nat → Prop
  | .done, _ => True
  | .next shape beyond, first =>
    context.nodes[first]? = some ⟨shape, beyond.links (first + 1)⟩ ∧
      context.Contains beyond (first + 1)
  | .branch shape inside others, first =>
    context.nodes[first]? = some ⟨shape, inside.links (first + 1)⟩ ∧
      context.Contains inside (first + 1) ∧
        context.Contains others (first + inside.size + 1)

theorem contains_of_nodes {context : RightContext} (tree : ContextTree) {first : Nat}
    (nodes : ∀ index node, (tree.nodes first)[index]? = some node →
      context.nodes[first + index]? = some node) : context.Contains tree first := by
  induction tree generalizing first with
  | done => trivial
  | next shape beyond induction =>
      refine ⟨nodes 0 _ rfl, induction fun index node isNode => ?_⟩
      have found := nodes (index + 1) node isNode
      rwa [← Nat.add_assoc, Nat.add_right_comm] at found
  | branch shape inside others inner outer =>
      refine ⟨nodes 0 _ rfl, inner fun index node isNode => ?_,
        outer fun index node isNode => ?_⟩
      · have found := nodes (index + 1) node (by
          rw [ContextTree.nodes, List.getElem?_cons_succ,
            List.getElem?_append_left (List.getElem?_eq_some_iff.mp isNode).1]
          exact isNode)
        rwa [← Nat.add_assoc, Nat.add_right_comm] at found
      · have found := nodes (inside.size + index + 1) node (by
          rw [ContextTree.nodes, List.getElem?_cons_succ,
            List.getElem?_append_right (by simp)]
          simpa using isNode)
        rwa [show first + (inside.size + index + 1) =
          first + inside.size + 1 + index by omega]
          at found

theorem contains_layout (tree : ContextTree) : tree.layout.Contains tree 0 := by
  refine contains_of_nodes tree fun index node isNode => ?_
  simpa [ContextTree.layout] using isNode

variable {context : RightContext} {scene : Scene}

def Continues (context : RightContext) (scene : Scene) (first : Nat)
    (descend : Descent) : Prop :=
  ∀ id, first ≤ id → descend id = context.matchNode scene id

theorem continues_matchNode (first : Nat) :
    context.Continues scene first (context.matchNode scene) :=
  fun _ _ => rfl

theorem Continues.later {first later : Nat} {descend : Descent}
    (continues : context.Continues scene first descend) (isLater : first ≤ later) :
    context.Continues scene later descend :=
  fun id behind => continues id (Nat.le_trans isLater behind)

theorem exists_matchNode_eq (scene : Scene) {id : Nat} {node : ContextNode}
    (isNode : context.nodes[id]? = some node) :
    ∃ descend, context.Continues scene (id + 1) descend ∧
      context.matchNode scene id = context.matchLinks scene descend node.links := by
  refine ⟨fun child place matched =>
    if id < child then context.matchNode scene child place matched
    else (false, matched), ?_, ?_⟩
  · intro child behind
    funext place matched
    exact if_pos behind
  · funext place matched
    rw [matchNode]
    split
    · next isNone => rw [isNone] at isNode; contradiction
    · next other isOther =>
        obtain rfl : other = node := Option.some.inj (isOther.symm.trans isNode)
        rfl

theorem accepts_eq {id : Nat} {shape : Shape} {links : Links}
    (isNode : context.nodes[id]? = some ⟨shape, links⟩) (position : Nat) :
    context.accepts scene id position = scene.hasShape position shape := by
  simp [accepts, isNode]

theorem matchLinks_eq (descend : Descent) (links : Links) (position : Nat)
    (matched : Array Nat) :
    context.matchLinks scene descend links position matched =
      match context.matchFollower scene descend links.follower position matched with
      | (false, matched) => (false, matched)
      | (true, matched) =>
        let assigned :=
          context.assign scene descend (scene.children position) links.branches
          (Array.replicate (scene.children position).length false, matched)
        (assigned.1, assigned.2.2) := by
  rw [matchLinks]
  rcases context.matchFollower scene descend links.follower position matched with
    ⟨_ | _, after⟩
  · rfl
  · cases links.branches with
    | nil => rfl
    | cons => rfl

theorem finds_matchLinks {tree : ContextTree} {first : Nat} {descend : Descent}
    (level : ∀ position matched, first + tree.size ≤ matched.size →
      Finds matched (first + tree.branchShapes.length) tree.levelShapes.length
        (tree.matchNext? scene position)
        (context.matchFollower scene descend (tree.links first).follower
          position matched))
    (branches : ∀ candidates used matched, first + tree.size ≤ matched.size →
      Assigns used matched first tree.branchShapes.length
        (tree.matchBranches? scene (freeOf candidates.zipIdx used))
        (context.assign scene descend candidates (tree.links first).branches
          (used, matched)))
    (position : Nat) (matched : Array Nat) (fits : first + tree.size ≤ matched.size) :
    Finds matched first tree.size (tree.match? scene position)
      (context.matchLinks scene descend (tree.links first) position matched) := by
  have sizes : tree.branchShapes.length + tree.levelShapes.length = tree.size := by
    rw [← List.length_append, tree.branchShapes_append, tree.length_shapes]
  have onLevel := level position matched fits
  rw [matchLinks_eq]
  rcases isResult :
    context.matchFollower scene descend (tree.links first).follower position
    matched with ⟨_ | _, after⟩
  · rw [isResult] at onLevel
    have failed : tree.matchNext? scene position = none := by simpa using onLevel.found
    rw [ContextTree.match?, failed]
    exact .fail onLevel.size fun id isOutside => onLevel.outside id (by omega)
  · rw [isResult] at onLevel
    obtain ⟨positions, isLevel⟩ := Option.isSome_iff_exists.mp onLevel.found.symm
    have onBranches := (branches (scene.children position)
      (Array.replicate (scene.children position).length false) after
      (by rw [onLevel.size]; exact fits)).finds
    rw [freeOf_unused] at onBranches
    rw [ContextTree.match?, isLevel]
    refine ⟨?_, onBranches.size.trans onLevel.size, fun id isOutside => ?_,
      fun all isAll => ?_⟩
    · rw [Option.isSome_map]
      exact onBranches.found
    · exact (onBranches.outside id (by omega)).trans (onLevel.outside id (by omega))
    · obtain ⟨found, areBranches, rfl⟩ := Option.map_eq_some_iff.mp isAll
      have length := (tree.haveShapes_of_parts.2 _ _ areBranches).length_eq
      refine holds_append.mpr ⟨onBranches.holds _ areBranches, ?_⟩
      rw [← length]
      exact (onLevel.holds _ isLevel).of_eq fun id behind _ =>
        onBranches.outside id (.inr behind)

theorem assigns_tryBranch {shape : Shape} {links : Links} {inside others : ContextTree}
    {first : Nat} {descend : Descent} {slots : List (Nat × Nat)} {used : Array Bool}
    {further : Array Bool × Array Nat → Bool × Array Bool × Array Nat}
    (isNode : context.nodes[first]? = some ⟨shape, links⟩)
    (inner : ∀ position matched, first + inside.size < matched.size →
      Finds matched (first + 1) inside.size (inside.match? scene position)
        (descend first position matched))
    (outer : ∀ used matched, first + inside.size + others.size < matched.size →
      Assigns used matched (first + inside.size + 1) others.branchShapes.length
        (others.matchBranches? scene (freeOf slots used)) (further (used, matched)))
    (slot : Nat × Nat) {matched : Array Nat}
    (fits : first + inside.size + others.size < matched.size) :
    Assigns used matched first (inside.size + others.branchShapes.length + 1)
      (if used[slot.2]? = some false then
        if scene.hasShape slot.1 shape then
          (inside.match? scene slot.1).bind fun inner =>
            (others.matchBranches? scene
              (freeOf slots (used.setIfInBounds slot.2 true))).map
              fun further => slot.1 :: (inner ++ further)
        else none
      else none)
      (context.tryBranch scene descend first further slot (used, matched)) := by
  simp only [tryBranch, accepts_eq isNode]
  by_cases isFree : used[slot.2]? = some false
  · by_cases has : scene.hasShape slot.1 shape = true
    · simp only [isFree, has, decide_true, Bool.and_self, if_true]
      have onInner := inner slot.1 (matched.setIfInBounds first slot.1) (by simp; omega)
      rcases isResult : descend first slot.1 (matched.setIfInBounds first slot.1) with
        ⟨_ | _, between⟩
      · rw [isResult] at onInner
        have failed : inside.match? scene slot.1 = none := by simpa using onInner.found
        simp only [failed, Option.bind_none, restore_used isFree]
        refine ⟨.fail (by simpa using onInner.size) fun id isOutside => ?_, fun _ => rfl⟩
        rw [onInner.outside id (by omega), Array.getElem?_setIfInBounds_ne (by omega)]
      · rw [isResult] at onInner
        obtain ⟨positions, isInner⟩ := Option.isSome_iff_exists.mp onInner.found.symm
        have length := (inside.haveShapes_of_match? isInner).length_eq
        rw [inside.length_shapes] at length
        have size : between.size = matched.size := by simpa using onInner.size
        have onOuter :=
          outer (used.setIfInBounds slot.2 true) between (by rw [size]; exact fits)
        rw [isInner] at onInner
        have onBoth := (onInner.append length.symm (by
          rw [Nat.add_right_comm]
          exact onOuter.finds)).cons (by omega)
        rw [Option.map_map] at onBoth
        simp only [isInner, Option.bind_some]
        rcases isFurther : further (used.setIfInBounds slot.2 true, between) with
          ⟨_ | _, left, after⟩
        · rw [isFurther] at onOuter onBoth
          obtain rfl := onOuter.restored rfl
          simp only [restore_used isFree]
          exact ⟨onBoth, fun _ => rfl⟩
        · rw [isFurther] at onBoth
          exact ⟨onBoth, nofun⟩
    · simp only [isFree, has, decide_true, Bool.and_false, if_true]
      exact ⟨.fail rfl fun _ _ => rfl, fun _ => rfl⟩
  · simp only [isFree, decide_false, Bool.false_and, if_false]
    exact ⟨.fail rfl fun _ _ => rfl, fun _ => rfl⟩

/-- In the layout of a tree, the search in place finds what the search of the tree
finds. -/
theorem finds_parts (scene : Scene) (tree : ContextTree) {first : Nat} {descend : Descent}
    (contains : context.Contains tree first)
    (continues : context.Continues scene first descend) :
    (∀ position matched, first + tree.size ≤ matched.size →
      Finds matched (first + tree.branchShapes.length) tree.levelShapes.length
        (tree.matchNext? scene position)
        (context.matchFollower scene descend (tree.links first).follower
          position matched)) ∧
      ∀ candidates used matched, first + tree.size ≤ matched.size →
        Assigns used matched first tree.branchShapes.length
          (tree.matchBranches? scene (freeOf candidates.zipIdx used))
          (context.assign scene descend candidates (tree.links first).branches
            (used, matched)) := by
  induction tree generalizing first descend with
  | done => exact ⟨fun _ _ _ => .nothing, fun _ _ _ _ => ⟨.nothing, nofun⟩⟩
  | next shape beyond induction =>
      refine ⟨fun position matched fits => ?_, fun _ _ _ _ => ⟨.nothing, nofun⟩⟩
      obtain ⟨isNode, containsBeyond⟩ := contains
      obtain ⟨deeper, continuesDeeper, isDescent⟩ := exists_matchNode_eq scene isNode
      obtain ⟨level, branches⟩ := induction containsBeyond continuesDeeper
      rw [ContextTree.matchNext?_next, ContextTree.links, matchFollower]
      cases scene.successor? position with
      | none => exact .fail rfl fun _ _ => rfl
      | some place =>
          simp only [accepts_eq isNode]
          by_cases has : scene.hasShape place shape = true
          · have sameSize :
                (matched.setIfInBounds first place).size = matched.size := by simp
            have found :=
              finds_matchLinks level branches place (matched.setIfInBounds first place)
              (by rw [sameSize, Nat.add_right_comm]; exact fits)
            rw [← isDescent, ← continues first (Nat.le_refl _)] at found
            simp only [has, if_true]
            rw [ContextTree.size] at fits
            have both := found.cons (by omega)
            rwa [← beyond.length_shapes] at both
          · simp only [has]
            exact .fail rfl fun _ _ => rfl
  | branch shape inside others inner outer =>
      obtain ⟨isNode, containsInside, containsOthers⟩ := contains
      obtain ⟨deeper, continuesDeeper, isDescent⟩ := exists_matchNode_eq scene isNode
      obtain ⟨innerLevel, innerBranches⟩ := inner containsInside continuesDeeper
      obtain ⟨outerLevel, outerBranches⟩ :=
        outer containsOthers
          (continues.later (Nat.le_trans (Nat.le_add_right ..) (Nat.le_succ _)))
      refine ⟨fun position matched fits => ?_, fun candidates used matched fits => ?_⟩
      · have place :
            first + (ContextTree.branch shape inside others).branchShapes.length =
            first + inside.size + 1 + others.branchShapes.length := by
          simp [ContextTree.branchShapes]
          omega
        rw [place]
        rw [ContextTree.size] at fits
        exact outerLevel position matched (by omega)
      · have distinct : (candidates.zipIdx.map Prod.snd).Nodup := by
          simp [List.nodup_range']
        have count : (ContextTree.branch shape inside others).branchShapes.length =
            inside.size + others.branchShapes.length + 1 := by
          simp [ContextTree.branchShapes]
        rw [ContextTree.matchBranches?_branch, findSome?_picks distinct, count]
        rw [ContextTree.size] at fits
        refine assigns_tryEach (fun slot _ after size => ?_) rfl
        refine assigns_tryBranch isNode (fun position matched fits => ?_)
          (fun used matched fits => ?_) slot (by omega)
        · rw [continues first (Nat.le_refl _), isDescent]
          exact finds_matchLinks innerLevel innerBranches position matched (by omega)
        · exact outerBranches candidates used matched (by omega)

theorem match?_layout (scene : Scene) (tree : ContextTree) (position : Nat) :
    tree.layout.match? scene position = tree.match? scene position := by
  have size : tree.layout.nodes.size = tree.size := by simp [ContextTree.layout]
  obtain ⟨level, branches⟩ := finds_parts scene tree (contains_layout tree)
    (continues_matchNode 0)
  have found := finds_matchLinks level branches position
    (Array.replicate tree.layout.nodes.size unassigned) (by simp [size])
  rw [match?]
  have root : tree.layout.root = tree.links 0 := rfl
  rw [root]
  rcases isResult :
    tree.layout.matchLinks scene (tree.layout.matchNode scene) (tree.links 0)
    position (Array.replicate tree.layout.nodes.size unassigned) with ⟨_ | _, matched⟩
  · rw [isResult] at found
    have failed : tree.match? scene position = none := by simpa using found.found
    rw [failed]
  · rw [isResult] at found
    obtain ⟨positions, isMatch⟩ := Option.isSome_iff_exists.mp found.found.symm
    have length := (tree.haveShapes_of_match? isMatch).length_eq
    rw [tree.length_shapes] at length
    have toList :=
      (found.holds _ isMatch).toList_eq (by rw [found.size]; simp [size, length])
    rw [isMatch]
    exact congrArg some toList

end RightContext

end LSystems
