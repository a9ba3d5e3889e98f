import LSystems.Context.Right

/-!
# Trees of right contexts

The nodes of a right context are the layout of a tree. This module reads the tree of a
written context from the end of the text, where a symbol finds ready what comes behind
it, and lays it out.
-/

namespace LSystems

/-- What has to come behind a position. -/
inductive ContextTree
  /-- Nothing further. -/
  | done
  /-- The symbol that follows on the same level, and what comes behind it. -/
  | next (shape : Shape) (beyond : ContextTree)
  /-- A symbol that starts a branch, what comes behind it, and what else hangs on the
  position. -/
  | branch (shape : Shape) (inside others : ContextTree)

namespace ContextTree

def size : ContextTree → Nat
  | done => 0
  | next _ beyond => beyond.size + 1
  | branch _ inside others => inside.size + others.size + 1

def shapes : ContextTree → List Shape
  | done => []
  | next shape beyond => shape :: beyond.shapes
  | branch shape inside others => shape :: (inside.shapes ++ others.shapes)

@[simp]
theorem length_shapes (tree : ContextTree) : tree.shapes.length = tree.size := by
  induction tree with
  | done => rfl
  | next shape beyond induction => simp [shapes, size, induction]
  | branch shape inside others inner outer => simp [shapes, size, inner, outer]

/-! ## From written contexts -/

/-- Hangs what a bracket holds on the position in front of it: the first symbol of the
bracket becomes a branch, and so do the branches that come before that symbol. -/
def hang (held rest : ContextTree) : ContextTree :=
  match held with
  | done => rest
  | next shape beyond => branch shape beyond rest
  | branch shape inside others => branch shape inside (others.hang rest)

def append : ContextTree → ContextTree → ContextTree
  | done, rest => rest
  | next shape beyond, rest => next shape (beyond.append rest)
  | branch shape inside others, rest => branch shape inside (others.append rest)

/-- Reads a written context from its end: the tree of what has been read on the current
level, and of what stands behind each bracket that is still to be opened, the innermost
first. -/
def readBack (branches : BranchPair Symbol) : List Shape → ContextTree × List ContextTree
  | [] => (done, [])
  | shape :: rest =>
    let (current, outer) := readBack branches rest
    if shape.symbol = branches.opening then (current.hang (outer.headD done), outer.tail)
    else if shape.symbol = branches.closing then (done, current :: outer)
    else (next shape current, outer)

def ofShapes (branches : BranchPair Symbol) (shapes : List Shape) : ContextTree :=
  let (current, outer) := readBack branches shapes
  outer.foldl append current

theorem hang_hang (held middle rest : ContextTree) :
    (held.hang middle).hang rest = held.hang (middle.hang rest) := by
  induction held with
  | done => rfl
  | next => rfl
  | branch shape inside others _ induction => simp only [hang, induction]

theorem hang_append (held middle rest : ContextTree) :
    (held.hang middle).append rest = held.hang (middle.append rest) := by
  induction held with
  | done => rfl
  | next => rfl
  | branch shape inside others _ induction => simp only [hang, append, induction]

theorem foldl_append_hang (held middle : ContextTree) (further : List ContextTree) :
    further.foldl append (held.hang middle) =
      held.hang (further.foldl append middle) := by
  induction further generalizing middle with
  | nil => rfl
  | cons tree further induction =>
      rw [List.foldl_cons, hang_append, induction, List.foldl_cons]

theorem foldl_append_next (shape : Shape) (beyond : ContextTree)
    (further : List ContextTree) :
    further.foldl append (next shape beyond) =
      next shape (further.foldl append beyond) := by
  induction further generalizing beyond with
  | nil => rfl
  | cons tree further induction =>
      rw [List.foldl_cons, append, induction, List.foldl_cons]

@[simp]
theorem shapes_hang (held rest : ContextTree) :
    (held.hang rest).shapes = held.shapes ++ rest.shapes := by
  induction held with
  | done => rfl
  | next shape beyond => rfl
  | branch shape inside others _ induction => simp [hang, shapes, induction]

@[simp]
theorem shapes_append (front rest : ContextTree) :
    (front.append rest).shapes = front.shapes ++ rest.shapes := by
  induction front with
  | done => rfl
  | next shape beyond induction => simp [append, shapes, induction]
  | branch shape inside others _ induction => simp [append, shapes, induction]

@[simp]
theorem size_hang (held rest : ContextTree) :
    (held.hang rest).size = held.size + rest.size := by
  simp [← length_shapes]

private theorem shapes_headD (trees : List ContextTree) :
    (trees.headD done).shapes ++ trees.tail.flatMap shapes = trees.flatMap shapes := by
  cases trees with
  | nil => rfl
  | cons head tail => rfl

private theorem shapes_readBack (branches : BranchPair Symbol) (shapes : List Shape) :
    (readBack branches shapes).1.shapes ++
        (readBack branches shapes).2.flatMap ContextTree.shapes =
      shapes.filter fun shape => !branches.contains shape.symbol := by
  induction shapes with
  | nil => rfl
  | cons shape rest induction =>
      simp only [readBack, List.filter_cons]
      by_cases isOpening : shape.symbol = branches.opening
      · simp only [if_pos isOpening, shapes_hang, List.append_assoc, shapes_headD]
        simpa [isOpening, BranchPair.contains] using induction
      · by_cases isClosing : shape.symbol = branches.closing
        · simp only [if_neg isOpening, if_pos isClosing]
          simpa [isClosing, ContextTree.shapes, BranchPair.contains] using induction
        · simp only [if_neg isOpening, if_neg isClosing]
          simpa [isOpening, isClosing, ContextTree.shapes, BranchPair.contains] using
            induction

private theorem shapes_foldl (outer : List ContextTree) (current : ContextTree) :
    (outer.foldl append current).shapes =
      current.shapes ++ outer.flatMap ContextTree.shapes := by
  induction outer generalizing current with
  | nil => simp
  | cons first rest induction => simp [induction]

theorem shapes_ofShapes (branches : BranchPair Symbol) (shapes : List Shape) :
    (ofShapes branches shapes).shapes =
      shapes.filter fun shape => !branches.contains shape.symbol := by
  rw [ofShapes, shapes_foldl, shapes_readBack]

/-! ## Layout -/

def links : ContextTree → Nat → Links
  | done, _ => .empty
  | next _ _, first => ⟨some first, []⟩
  | branch _ inside others, first =>
    let further := others.links (first + inside.size + 1)
    ⟨further.follower, first :: further.branches⟩

def nodes : ContextTree → Nat → List ContextNode
  | done, _ => []
  | next shape beyond, first =>
    ⟨shape, beyond.links (first + 1)⟩ :: beyond.nodes (first + 1)
  | branch shape inside others, first =>
    ⟨shape, inside.links (first + 1)⟩ ::
      (inside.nodes (first + 1) ++ others.nodes (first + inside.size + 1))

def layout (tree : ContextTree) : RightContext :=
  ⟨(tree.nodes 0).toArray, tree.links 0⟩

@[simp]
theorem length_nodes (tree : ContextTree) (first : Nat) :
    (tree.nodes first).length = tree.size := by
  induction tree generalizing first with
  | done => rfl
  | next shape beyond induction => simp [nodes, size, induction]
  | branch shape inside others inner outer => simp [nodes, size, inner, outer]

@[simp]
theorem size_layout (tree : ContextTree) : tree.layout.size = tree.size := by
  simp [layout, RightContext.size]

@[simp]
theorem map_shape_nodes (tree : ContextTree) (first : Nat) :
    (tree.nodes first).map ContextNode.shape = tree.shapes := by
  induction tree generalizing first with
  | done => rfl
  | next shape beyond induction => simp [nodes, shapes, induction]
  | branch shape inside others inner outer => simp [nodes, shapes, inner, outer]

end ContextTree

def Links.join (links others : Links) : Links :=
  ⟨others.follower.or links.follower, links.branches ++ others.branches⟩

namespace Links

@[simp]
theorem join_empty (links : Links) : links.join .empty = links := by
  simp [join, empty]

@[simp]
theorem empty_join (links : Links) : Links.empty.join links = links := by
  simp [join, empty]

theorem join_join (links middle others : Links) :
    (links.join middle).join others = links.join (middle.join others) := by
  simp [join, Option.or_assoc]

end Links

namespace ContextTree

theorem links_hang (held rest : ContextTree) (first : Nat) :
    (held.hang rest).links first =
      ((held.hang done).links first).join (rest.links (first + held.size)) := by
  induction held generalizing first with
  | done => simp [hang, links, size]
  | next shape beyond =>
      simp [hang, links, size, Links.join, Links.empty, Nat.add_assoc]
  | branch shape inside others _ induction =>
      have position : first + inside.size + 1 + others.size =
          first + (inside.size + others.size + 1) := by omega
      simp [hang, links, size, Links.join, induction, position]

theorem nodes_hang (held rest : ContextTree) (first : Nat) :
    (held.hang rest).nodes first =
      (held.hang done).nodes first ++ rest.nodes (first + held.size) := by
  induction held generalizing first with
  | done => simp [hang, nodes, size]
  | next shape beyond => simp [hang, nodes, size, Nat.add_assoc]
  | branch shape inside others _ induction =>
      have position : first + inside.size + 1 + others.size =
          first + (inside.size + others.size + 1) := by omega
      simp [hang, nodes, size, induction, position]

end ContextTree

end LSystems
