import LSystems.Context.Scene

/-!
# Right contexts

A right context is a tree that hangs on a position. Its nodes are the symbols that are
written and no brackets, numbered in the order of the text. A symbol is either the
follower of the one before it or, behind an opening bracket, a branch of the symbol in
front of the bracket. A context branch may stand for any branch of the word, but no two
for the same one; the first choice that works is taken.
-/

namespace LSystems

structure Links where
  follower : Option Nat
  branches : List Nat
deriving DecidableEq, Repr

namespace Links

def empty : Links := ⟨none, []⟩

def add (links : Links) (startsBranch : Bool) (id : Nat) : Links :=
  if startsBranch then { links with branches := links.branches ++ [id] }
  else { links with follower := some id }

end Links

structure ContextNode where
  shape : Shape
  links : Links
deriving DecidableEq, Repr

structure RightContext where
  nodes : Array ContextNode
  root : Links
deriving DecidableEq, Repr

namespace RightContext

def size (context : RightContext) : Nat :=
  context.nodes.size

/-! ## From written contexts -/

def empty : RightContext := ⟨#[], .empty⟩

def push (context : RightContext) (shape : Shape) : RightContext :=
  { context with nodes := context.nodes.push ⟨shape, .empty⟩ }

def relink (context : RightContext) (change : Links → Links) : Option Nat → RightContext
  | none => { context with root := change context.root }
  | some id =>
    { context with
      nodes := context.nodes.modify id fun node =>
        { node with links := change node.links } }

/-- Where the next symbol is to be hung: on a node or on the root, and whether as a
branch. -/
structure Cursor where
  parent : Option Nat
  startsBranch : Bool

/-- What has been read, where the next symbol goes, and where each open bracket will
take up again. -/
structure Reading where
  context : RightContext
  cursor : Cursor
  outer : List Cursor

namespace Reading

def start : Reading := ⟨.empty, ⟨none, false⟩, []⟩

def add (branches : BranchPair Symbol) (reading : Reading) (shape : Shape) : Reading :=
  if shape.symbol = branches.opening then
    { reading with
      cursor := { reading.cursor with startsBranch := true }
      outer := reading.cursor :: reading.outer }
  else if shape.symbol = branches.closing then
    match reading.outer with
    | [] => reading
    | cursor :: outer => { reading with cursor, outer }
  else
    let id := reading.context.nodes.size
    let context :=
      (reading.context.push shape).relink (·.add reading.cursor.startsBranch id)
      reading.cursor.parent
    { reading with context, cursor := ⟨some id, false⟩ }

end Reading

/-- The tree of a written context. A closing bracket that nothing opens is passed over,
and a bracket that nothing closes ends with the context. -/
def ofShapes (branches : BranchPair Symbol) (shapes : List Shape) : RightContext :=
  (shapes.foldl (Reading.add branches) .start).context

example : ofShapes ⟨0, 1⟩ [⟨0, 0⟩, ⟨2, 0⟩, ⟨1, 0⟩, ⟨3, 0⟩] =
    ⟨#[⟨⟨2, 0⟩, .empty⟩, ⟨⟨3, 0⟩, .empty⟩], ⟨some 1, [0]⟩⟩ := rfl

/-! ## Matching -/

def accepts (context : RightContext) (scene : Scene) (id position : Nat) : Bool :=
  context.nodes[id]?.any fun node => scene.hasShape position node.shape

/-- A search for what hangs on a node that stands for a position. It writes the
positions that it finds over those found before, and leaves behind what it has written
also if it fails. -/
abbrev Descent := Nat → Nat → Array Nat → Bool × Array Nat

def tryEach {Candidate State : Type} (attempt : Candidate → State → Bool × State) :
    List Candidate → State → Bool × State
  | [], state => (false, state)
  | candidate :: rest, state =>
    match attempt candidate state with
    | (true, state) => (true, state)
    | (false, state) => tryEach attempt rest state

/-- Tries a candidate for a branch, and then the search for the branches that are
written behind it. A candidate is in use while its flag is set. -/
def tryBranch (context : RightContext) (scene : Scene) (descend : Descent) (id : Nat)
    (further : Array Bool × Array Nat → Bool × Array Bool × Array Nat)
    (candidate : Nat × Nat) (state : Array Bool × Array Nat) :
    Bool × Array Bool × Array Nat :=
  let (place, slot) := candidate
  let (used, matched) := state
  if used[slot]? = some false && context.accepts scene id place then
    let used := used.setIfInBounds slot true
    match descend id place (matched.setIfInBounds id place) with
    | (false, matched) => (false, used.setIfInBounds slot false, matched)
    | (true, matched) =>
      match further (used, matched) with
      | (true, state) => (true, state)
      | (false, used, matched) => (false, used.setIfInBounds slot false, matched)
  else (false, used, matched)

def assign (context : RightContext) (scene : Scene) (descend : Descent)
    (candidates : List Nat) :
    List Nat → Array Bool × Array Nat → Bool × Array Bool × Array Nat
  | [], state => (true, state)
  | id :: rest, state =>
    tryEach (context.tryBranch scene descend id
      (assign context scene descend candidates rest))
      candidates.zipIdx state

def matchFollower (context : RightContext) (scene : Scene) (descend : Descent)
    (follower : Option Nat) (position : Nat) (matched : Array Nat) : Bool × Array Nat :=
  match follower with
  | none => (true, matched)
  | some id =>
    match scene.successor? position with
    | none => (false, matched)
    | some place =>
      if context.accepts scene id place then
        descend id place (matched.setIfInBounds id place)
      else (false, matched)

def matchLinks (context : RightContext) (scene : Scene) (descend : Descent)
    (links : Links) (position : Nat) (matched : Array Nat) : Bool × Array Nat :=
  match context.matchFollower scene descend links.follower position matched with
  | (false, matched) => (false, matched)
  | (true, matched) =>
    if links.branches.isEmpty then (true, matched)
    else
      let candidates := scene.children position
      let used := Array.replicate candidates.length false
      let (found, _, matched) := context.assign scene descend candidates links.branches
        (used, matched)
      (found, matched)

/-- Finds what hangs on a node. Links only lead to nodes that are written later, so the
search need not look for any others. -/
def matchNode (context : RightContext) (scene : Scene) (id position : Nat)
    (matched : Array Nat) : Bool × Array Nat :=
  match _found : context.nodes[id]? with
  | none => (false, matched)
  | some node =>
    context.matchLinks scene (fun child place matched =>
        if id < child then context.matchNode scene child place matched
        else (false, matched))
      node.links position matched
termination_by context.nodes.size - id
decreasing_by
  obtain ⟨inside, _⟩ := Array.getElem?_eq_some_iff.mp _found
  omega

def unassigned : Nat := UInt64.size - 1

/-- The positions that a right context stands for behind `position`, in the order in
which the context is written. -/
def match? (scene : Scene) (context : RightContext) (position : Nat) :
    Option (List Nat) :=
  let matched := Array.replicate context.nodes.size unassigned
  match context.matchLinks scene (context.matchNode scene) context.root
    position matched with
  | (true, matched) => some matched.toList
  | (false, _) => none

end RightContext

end LSystems
