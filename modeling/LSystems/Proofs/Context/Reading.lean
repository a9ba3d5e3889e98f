import LSystems.Proofs.Context.Trees

/-!
# Reading right contexts

Reading a written context from its start gives the layout of the tree that is read from
its end. While some of it is unread, what has been read is a context that still lacks a
tree at the cursor and one where each open bracket takes up again. Main statement:
`ofShapes_eq_layout`.
-/

namespace LSystems

namespace RightContext

open ContextTree

def extend (context : RightContext) (nodes : List ContextNode) : RightContext :=
  { context with nodes := context.nodes ++ nodes.toArray }

@[simp]
theorem size_extend (context : RightContext) (nodes : List ContextNode) :
    (context.extend nodes).size = context.size + nodes.length := by
  simp [extend, size]

@[simp]
theorem extend_extend (context : RightContext) (nodes further : List ContextNode) :
    (context.extend nodes).extend further = context.extend (nodes ++ further) := by
  simp [extend]

@[simp]
theorem size_relink (context : RightContext) (change : Links → Links)
    (parent : Option Nat) :
    (context.relink change parent).size = context.size := by
  cases parent <;> simp [relink, size]

theorem relink_relink (context : RightContext) (change further : Links → Links)
    (parent : Option Nat) :
    (context.relink change parent).relink further parent =
      context.relink (fun links => further (change links)) parent := by
  cases parent with
  | none => rfl
  | some id =>
      simp only [relink, RightContext.mk.injEq, and_true]
      apply Array.ext_getElem?
      intro other
      simp only [Array.getElem?_modify]
      split <;> simp [Function.comp_def]

theorem relink_extend (context : RightContext) (change : Links → Links)
    (nodes : List ContextNode) {parent : Option Nat}
    (valid : ∀ id ∈ parent, id < context.size) :
    (context.extend nodes).relink change parent =
      (context.relink change parent).extend nodes := by
  cases parent with
  | none => rfl
  | some id =>
      have inside : id < context.nodes.size := valid id rfl
      simp only [relink, extend, RightContext.mk.injEq, and_true]
      apply Array.ext_getElem?
      intro other
      simp only [Array.getElem?_modify, Array.getElem?_append, Array.size_modify]
      by_cases same : id = other
      · subst same
        simp only [if_pos inside]
      · simp only [if_neg same]

theorem relink_added (context : RightContext) (change : Links → Links) (shape : Shape)
    (links : Links) (nodes : List ContextNode) :
    (context.extend (⟨shape, links⟩ :: nodes)).relink change (some context.size) =
      context.extend (⟨shape, change links⟩ :: nodes) := by
  simp only [relink, extend, size, RightContext.mk.injEq, and_true]
  apply Array.ext_getElem?
  intro other
  by_cases same : context.nodes.size = other
  · subst same
    simp [Array.getElem_modify]
  · by_cases inside : other < context.nodes.size
    · simp [Array.getElem?_modify, Array.getElem?_append, same, inside]
    · obtain ⟨behind, isBehind⟩ : ∃ behind, other - context.nodes.size = behind + 1 :=
        ⟨other - context.nodes.size - 1, by omega⟩
      simp [Array.getElem?_modify, Array.getElem?_append, same, inside, isBehind]

def hang (context : RightContext) (tree : ContextTree) (parent : Option Nat) :
    RightContext :=
  (context.extend (tree.nodes context.size)).relink
    (·.join (tree.links context.size)) parent

@[simp]
theorem size_hang (context : RightContext) (tree : ContextTree) (parent : Option Nat) :
    (context.hang tree parent).size = context.size + tree.size := by
  simp [hang]

theorem hang_done (context : RightContext) (parent : Option Nat) :
    context.hang done parent = context := by
  cases parent with
  | none => simp [hang, relink, extend, ContextTree.nodes, ContextTree.links]
  | some id =>
      simp only [hang, relink, extend, ContextTree.nodes, ContextTree.links,
        Links.join_empty]
      cases context
      simp only [RightContext.mk.injEq, and_true]
      apply Array.ext_getElem?
      intro other
      simp [Array.getElem?_modify]

theorem hang_hang (context : RightContext) (held rest : ContextTree) {parent : Option Nat}
    (valid : ∀ id ∈ parent, id < context.size) :
    (context.hang (held.hang done) parent).hang rest parent =
      context.hang (held.hang rest) parent := by
  have held_size : (held.hang done).size = held.size := by simp [ContextTree.size]
  calc (context.hang (held.hang done) parent).hang rest parent
    _ = (((context.extend ((held.hang done).nodes context.size)).relink
            (·.join ((held.hang done).links context.size)) parent).extend
            (rest.nodes (context.size + held.size))).relink
            (·.join (rest.links (context.size + held.size))) parent := by
        rw [hang, size_hang, held_size, hang]
    _ = (context.extend ((held.hang rest).nodes context.size)).relink
            (·.join ((held.hang rest).links context.size)) parent := by
        rw [← relink_extend _ _ _ fun id isParent => by
            rw [size_extend]; exact Nat.lt_add_right _ (valid id isParent)]
        rw [relink_relink, extend_extend, ← ContextTree.nodes_hang]
        simp only [Links.join_join, ← ContextTree.links_hang]

/-- A node is added with its links empty; what hangs on it is hung there later. -/
theorem hang_next (context : RightContext) (cursor : Cursor) (shape : Shape)
    (beyond rest : ContextTree) (valid : ∀ id ∈ cursor.parent, id < context.size)
    (isHung : rest =
      if cursor.startsBranch then branch shape beyond done else next shape beyond) :
    ((context.push shape).relink (·.add cursor.startsBranch context.size)
      cursor.parent).hang beyond
        (some context.size) = context.hang rest cursor.parent := by
  have pushed : context.push shape = context.extend [⟨shape, .empty⟩] := by
    simp [push, extend]
  have added : ∀ links : Links,
      links.add cursor.startsBranch context.size =
        links.join (rest.links context.size) := by
    intro links
    cases isBranch : cursor.startsBranch <;>
      simp [isHung, isBranch, Links.add, Links.join, ContextTree.links, Links.empty]
  have nodes : rest.nodes context.size =
      ⟨shape, beyond.links (context.size + 1)⟩ :: beyond.nodes (context.size + 1) := by
    cases isBranch : cursor.startsBranch <;> simp [isHung, isBranch, ContextTree.nodes]
  have kept := context.size_relink (·.join (rest.links context.size)) cursor.parent
  simp only [added, pushed]
  rw [relink_extend _ _ _ valid, hang, size_extend, kept, extend_extend]
  have onNode :=
    relink_added (context.relink (·.join (rest.links context.size)) cursor.parent)
    (·.join (beyond.links (context.size + 1))) shape .empty
      (beyond.nodes (context.size + 1))
  rw [kept] at onNode
  rw [List.length_singleton, List.singleton_append, onNode, Links.empty_join, ← nodes,
    ← relink_extend _ _ _ valid, hang]

def hangAt (context : RightContext) (cursor : Cursor) (tree : ContextTree) :
    RightContext :=
  context.hang (if cursor.startsBranch then tree.hang done else tree) cursor.parent

/-- Hangs a tree where the cursor is, and one where each of the outer brackets takes up
again. What is left over when the outermost has taken up belongs to the same level. -/
def resume (context : RightContext) (cursor : Cursor) (tree : ContextTree) :
    List Cursor → List ContextTree → RightContext
  | [], further => context.hangAt cursor (further.foldl ContextTree.append tree)
  | _ :: _, [] => context.hangAt cursor tree
  | saved :: outer, rest :: further =>
    (context.hangAt cursor tree).resume saved rest outer further

theorem hangAt_done (context : RightContext) (cursor : Cursor) :
    context.hangAt cursor done = context := by
  simp [hangAt, ContextTree.hang, hang_done]

theorem hangAt_hangAt (context : RightContext) (held rest : ContextTree) {cursor : Cursor}
    (valid : ∀ id ∈ cursor.parent, id < context.size) :
    (context.hangAt { cursor with startsBranch := true } held).hangAt cursor rest =
      context.hangAt cursor (held.hang rest) := by
  cases isBranch : cursor.startsBranch <;>
    simp [hangAt, isBranch, hang_hang _ _ _ valid, ContextTree.hang_hang]

theorem resume_opening (context : RightContext) {cursor : Cursor}
    (valid : ∀ id ∈ cursor.parent, id < context.size) (tree : ContextTree)
    (outer : List Cursor) (further : List ContextTree) :
    context.resume { cursor with startsBranch := true } tree (cursor :: outer) further =
      context.resume cursor (tree.hang (further.headD done)) outer further.tail := by
  cases further with
  | nil =>
      have same := context.hangAt_hangAt tree done valid
      rw [hangAt_done] at same
      cases outer <;> simpa [resume] using same
  | cons rest further =>
      rw [resume, List.headD_cons, List.tail_cons]
      cases outer with
      | nil => simp [resume, ContextTree.foldl_append_hang, hangAt_hangAt _ _ _ valid]
      | cons saved outer =>
          cases further <;> simp [resume, hangAt_hangAt _ _ _ valid]

theorem resume_closing (context : RightContext) (cursor saved : Cursor)
    (tree : ContextTree) (outer : List Cursor) (further : List ContextTree) :
    context.resume cursor done (saved :: outer) (tree :: further) =
      context.resume saved tree outer further := by
  rw [resume, hangAt_done]

theorem resume_next (context : RightContext) {cursor : Cursor}
    (valid : ∀ id ∈ cursor.parent, id < context.size) (shape : Shape)
    (beyond : ContextTree) (outer : List Cursor) (further : List ContextTree) :
    ((context.push shape).relink (·.add cursor.startsBranch context.size)
      cursor.parent).resume
        ⟨some context.size, false⟩ beyond outer further =
      context.resume cursor (next shape beyond) outer further := by
  have hung : ∀ beyond,
      ((context.push shape).relink (·.add cursor.startsBranch context.size)
        cursor.parent).hangAt
        ⟨some context.size, false⟩ beyond =
          context.hangAt cursor (next shape beyond) := by
    intro beyond
    exact hang_next context cursor shape beyond _ valid (by rfl)
  cases outer with
  | nil => simp only [resume, ContextTree.foldl_append_next, hung]
  | cons saved outer => cases further <;> simp only [resume, hung]

structure Reading.Valid (reading : Reading) : Prop where
  cursor : ∀ id ∈ reading.cursor.parent, id < reading.context.size
  outer : ∀ saved ∈ reading.outer, ∀ id ∈ saved.parent, id < reading.context.size

theorem Reading.Valid.add {reading : Reading} (valid : reading.Valid)
    (branches : BranchPair Symbol) (shape : Shape) :
    (reading.add branches shape).Valid := by
  rw [Reading.add]
  split
  · exact ⟨valid.cursor, List.forall_mem_cons.mpr ⟨valid.cursor, valid.outer⟩⟩
  · split
    · cases isOuter : reading.outer with
      | nil => exact valid
      | cons saved outer =>
          obtain ⟨isSaved, outside⟩ := List.forall_mem_cons.mp (isOuter ▸ valid.outer)
          exact ⟨isSaved, outside⟩
    · have size : (reading.context.push shape).size = reading.context.size + 1 := by
        simp [push, RightContext.size]
      refine ⟨?_, fun saved member id isParent => ?_⟩
      · rintro id ⟨⟩
        rw [size_relink, size]
        exact Nat.lt_succ_self _
      · rw [size_relink, size]
        exact Nat.lt_succ_of_lt (valid.outer saved member id isParent)

theorem foldl_add_eq (branches : BranchPair Symbol) (shapes : List Shape)
    {reading : Reading} (valid : reading.Valid) :
    (shapes.foldl (Reading.add branches) reading).context =
      reading.context.resume reading.cursor (readBack branches shapes).1 reading.outer
        (readBack branches shapes).2 := by
  induction shapes generalizing reading with
  | nil => cases reading.outer <;> simp [readBack, resume, hangAt_done]
  | cons shape rest induction =>
      rw [List.foldl_cons, readBack, induction (valid.add branches shape)]
      by_cases isOpening : shape.symbol = branches.opening
      · simp only [Reading.add, if_pos isOpening]
        exact resume_opening _ valid.cursor _ _ _
      · by_cases isClosing : shape.symbol = branches.closing
        · simp only [Reading.add, if_neg isOpening, if_pos isClosing]
          cases isOuter : reading.outer with
          | nil => simp [isOuter, resume, ContextTree.append]
          | cons saved outer => exact (resume_closing ..).symm
        · simp only [Reading.add, if_neg isOpening, if_neg isClosing]
          exact resume_next _ valid.cursor _ _ _ _

/-- Reading from the start and from the end agree. -/
theorem ofShapes_eq_layout (branches : BranchPair Symbol) (shapes : List Shape) :
    ofShapes branches shapes = (ContextTree.ofShapes branches shapes).layout := by
  have valid : Reading.start.Valid := ⟨by simp [Reading.start], by simp [Reading.start]⟩
  rw [ofShapes, foldl_add_eq branches shapes valid]
  simp [Reading.start, resume, hangAt, hang, relink, extend, empty, size,
    ContextTree.layout, ContextTree.ofShapes]

def shapes (context : RightContext) : List Shape :=
  context.nodes.toList.map ContextNode.shape

@[simp]
theorem shapes_layout (tree : ContextTree) : tree.layout.shapes = tree.shapes := by
  simp [shapes, ContextTree.layout]

theorem shapes_ofShapes (branches : BranchPair Symbol) (written : List Shape) :
    (ofShapes branches written).shapes =
      written.filter fun shape => !branches.contains shape.symbol := by
  rw [ofShapes_eq_layout, shapes_layout, ContextTree.shapes_ofShapes]

end RightContext

end LSystems
