import LSystems.Context.Right
import LSystems.Proofs.Context.Walks

/-!
# Scenes with other numbers

The numbers of symbols do not matter. When all symbols get new ones, no two of them the
same, brackets keep their partners, every walk leads where it led, and contexts in the
new numbers are found where they were. Main statements: `LeftContext.match?_rename` and
`RightContext.match?_rename`.
-/

namespace LSystems

variable {name : Symbol → Symbol}

/-! ## New numbers -/

def BranchPair.map {α β : Type} (name : α → β) (branches : BranchPair α) : BranchPair β :=
  ⟨name branches.opening, name branches.closing⟩

def SymbolSet.map (name : Symbol → Symbol) (set : SymbolSet) : SymbolSet :=
  ⟨set.members.map name⟩

def Shape.rename (name : Symbol → Symbol) (shape : Shape) : Shape :=
  { shape with symbol := name shape.symbol }

def Word.rename (name : Symbol → Symbol) (word : Word) : Word :=
  { word with symbols := word.symbols.map name }

def Scene.rename (name : Symbol → Symbol) (scene : Scene) : Scene where
  word := scene.word.rename name
  branches := scene.branches.map name
  table := scene.table
  ignored := scene.ignored.map name

theorem SymbolSet.contains_map (injective : Function.Injective name) (set : SymbolSet)
    (symbol : Symbol) : (set.map name).contains (name symbol) = set.contains symbol := by
  rw [Bool.eq_iff_iff]
  simp [contains, SymbolSet.map, injective.eq_iff]

@[simp]
theorem Word.size_rename (name : Symbol → Symbol) (word : Word) :
    (word.rename name).size = word.size :=
  Array.size_map ..

/-! ## Brackets -/

namespace BracketTable

theorem step_rename (injective : Function.Injective name) (branches : BranchPair Symbol)
    (progress : Progress) (symbol : Symbol) :
    progress.step (branches.map name) (name symbol) = progress.step branches symbol := by
  simp only [Progress.step, BranchPair.map, injective.eq_iff]

theorem ofSymbols_rename (injective : Function.Injective name)
    (branches : BranchPair Symbol) (symbols : Array Symbol) :
    ofSymbols (branches.map name) (symbols.map name) = ofSymbols branches symbols := by
  have same :
      (fun progress symbol => Progress.step (branches.map name) progress (name symbol)) =
      Progress.step branches :=
    funext fun progress => funext fun symbol =>
      step_rename injective branches progress symbol
  simp only [ofSymbols, Array.foldl_map, same]

end BracketTable

/-! ## Walks -/

namespace Scene

variable {scene : Scene} {position : Nat}

theorem ofWord_rename (injective : Function.Injective name) (branches : BranchPair Symbol)
    (ignored : SymbolSet) (word : Word) :
    ofWord (branches.map name) (ignored.map name) (word.rename name) =
      (ofWord branches ignored word).rename name := by
  simp only [ofWord, rename, Word.rename, BracketTable.ofSymbols_rename injective]

@[simp]
theorem symbol?_rename (name : Symbol → Symbol) (scene : Scene) (position : Nat) :
    (scene.rename name).symbol? position = (scene.symbol? position).map name :=
  Array.getElem?_map ..

theorem contains_ignored_rename (injective : Function.Injective name) (scene : Scene)
    (symbol : Symbol) :
    (scene.rename name).ignored.contains (name symbol) = scene.ignored.contains symbol :=
  scene.ignored.contains_map injective symbol

theorem eq_opening_rename_iff (injective : Function.Injective name) {symbol : Symbol} :
    name symbol = (scene.rename name).branches.opening ↔
    symbol = scene.branches.opening :=
  injective.eq_iff

theorem eq_closing_rename_iff (injective : Function.Injective name) {symbol : Symbol} :
    name symbol = (scene.rename name).branches.closing ↔
    symbol = scene.branches.closing :=
  injective.eq_iff

@[simp]
theorem behindBranch?_rename (name : Symbol → Symbol) (scene : Scene) (position : Nat) :
    (scene.rename name).behindBranch? position = scene.behindBranch? position := rfl

@[simp]
theorem branchStart?_rename (name : Symbol → Symbol) (scene : Scene) (position : Nat) :
    (scene.rename name).branchStart? position = scene.branchStart? position := rfl

theorem hasShape_rename (injective : Function.Injective name) (scene : Scene)
    (position : Nat) (shape : Shape) :
    (scene.rename name).hasShape position (shape.rename name) =
      scene.hasShape position shape := by
  have sameSymbol : (scene.symbol? position).map name = some (name shape.symbol) ↔
      scene.symbol? position = some shape.symbol := by
    simp [Option.map_eq_some_iff, injective.eq_iff]
  simp only [hasShape, symbol?_rename, Shape.rename, sameSymbol]
  rfl

/-! One step of a walk reads alike under both numbers, and goes on from the same
position. -/

theorem forward?_rename (injective : Function.Injective name) (scene : Scene)
    (position : Nat) :
    (scene.rename name).forward? position = scene.forward? position := by
  fun_induction forward? scene position <;>
    rw [forward?_eq, symbol?_rename, ‹scene.symbol? _ = _›] <;>
    simp_all [contains_ignored_rename injective, eq_opening_rename_iff injective,
      eq_closing_rename_iff injective]

theorem branchHeads_rename (injective : Function.Injective name) (scene : Scene)
    (position : Nat) :
    (scene.rename name).branchHeads position = scene.branchHeads position := by
  fun_induction branchHeads scene position with
  | case3 position _ _ inner behind =>
      rw [branchHeads_eq, symbol?_rename, ‹scene.symbol? _ = _›]
      cases jump : scene.behindBranch? position <;>
        simp_all [contains_ignored_rename injective, eq_opening_rename_iff injective]
  | _ =>
      rw [branchHeads_eq, symbol?_rename, ‹scene.symbol? _ = _›]
      simp_all [contains_ignored_rename injective, eq_opening_rename_iff injective,
        eq_closing_rename_iff injective]

theorem branchesFrom_rename (injective : Function.Injective name) (scene : Scene)
    (position : Nat) :
    (scene.rename name).branchesFrom position = scene.branchesFrom position := by
  fun_induction branchesFrom scene position with
  | case3 position _ _ behind =>
      rw [branchesFrom_eq, symbol?_rename, ‹scene.symbol? _ = _›]
      cases jump : scene.behindBranch? position <;>
        simp_all [contains_ignored_rename injective, eq_opening_rename_iff injective,
          branchHeads_rename injective]
  | _ =>
      rw [branchesFrom_eq, symbol?_rename, ‹scene.symbol? _ = _›]
      simp_all [contains_ignored_rename injective, eq_opening_rename_iff injective]

theorem parent?_rename (injective : Function.Injective name) (scene : Scene)
    (position : Nat) :
    (scene.rename name).parent? position = scene.parent? position := by
  fun_induction parent? scene position with
  | case1 => simp [parent?]
  | _ =>
      rw [parent?_succ_eq, symbol?_rename, ‹scene.symbol? _ = _›]
      simp_all [contains_ignored_rename injective, eq_opening_rename_iff injective,
        eq_closing_rename_iff injective]

theorem successor?_rename (injective : Function.Injective name) (scene : Scene)
    (position : Nat) :
    (scene.rename name).successor? position = scene.successor? position :=
  forward?_rename injective scene (position + 1)

theorem children_rename (injective : Function.Injective name) (scene : Scene)
    (position : Nat) :
    (scene.rename name).children position = scene.children position :=
  branchesFrom_rename injective scene (position + 1)

end Scene

/-! ## Left contexts -/

namespace LeftContext

theorem climb?_rename (injective : Function.Injective name) (scene : Scene)
    (shapes : List Shape) (position : Nat) :
    climb? (scene.rename name) (shapes.map (Shape.rename name)) position =
      climb? scene shapes position := by
  induction shapes generalizing position with
  | nil => rfl
  | cons shape further induction =>
      simp only [List.map_cons, climb?, Scene.parent?_rename injective,
        Scene.hasShape_rename injective, induction]

theorem match?_rename (injective : Function.Injective name) (scene : Scene)
    (context : LeftContext) (position : Nat) :
    match? (scene.rename name) (context.map (Shape.rename name)) position =
      match? scene context position := by
  rw [match?, match?, ← List.map_reverse, climb?_rename injective]

end LeftContext

/-! ## Right contexts -/

def ContextNode.rename (name : Symbol → Symbol) (node : ContextNode) : ContextNode :=
  { node with shape := node.shape.rename name }

namespace RightContext

def rename (name : Symbol → Symbol) (context : RightContext) : RightContext :=
  { context with nodes := context.nodes.map (ContextNode.rename name) }

theorem size_rename (name : Symbol → Symbol) (context : RightContext) :
    (context.rename name).size = context.size :=
  Array.size_map ..

theorem getElem?_nodes_rename (name : Symbol → Symbol)
    (context : RightContext) (id : Nat) :
    (context.rename name).nodes[id]? = context.nodes[id]?.map (ContextNode.rename name) :=
  Array.getElem?_map ..

theorem relink_rename (name : Symbol → Symbol) (context : RightContext)
    (change : Links → Links) (parent : Option Nat) :
    (context.rename name).relink change parent =
      (context.relink change parent).rename name := by
  cases parent with
  | none => rfl
  | some id =>
      have nodes : (context.nodes.map (ContextNode.rename name)).modify id
            (fun node => { node with links := change node.links }) =
          (context.nodes.modify id fun node =>
            { node with links := change node.links }).map
            (ContextNode.rename name) := by
        ext1
        · simp
        · simp only [Array.getElem_modify, Array.getElem_map, ContextNode.rename]
          split <;> rfl
      simp only [relink, rename, nodes]

theorem push_rename (name : Symbol → Symbol) (context : RightContext) (shape : Shape) :
    (context.rename name).push (shape.rename name) =
      (context.push shape).rename name := by
  simp only [push, rename, Array.map_push]
  rfl

def Reading.rename (name : Symbol → Symbol) (reading : Reading) : Reading :=
  { reading with context := reading.context.rename name }

theorem Reading.add_rename (injective : Function.Injective name)
    (branches : BranchPair Symbol) (reading : Reading) (shape : Shape) :
    (reading.rename name).add (branches.map name) (shape.rename name) =
      (reading.add branches shape).rename name := by
  have opening : name shape.symbol = name branches.opening ↔
      shape.symbol = branches.opening :=
    injective.eq_iff
  have closing : name shape.symbol = name branches.closing ↔
      shape.symbol = branches.closing :=
    injective.eq_iff
  simp only [add, Shape.rename, BranchPair.map, opening, closing]
  split
  · rfl
  · split
    · simp only [rename]
      split <;> rfl
    · have size : (reading.context.rename name).nodes.size = reading.context.nodes.size :=
        size_rename name reading.context
      have pushed := push_rename name reading.context shape
      simp only [Shape.rename] at pushed
      simp only [rename, size, pushed, relink_rename]

theorem ofShapes_rename (injective : Function.Injective name)
    (branches : BranchPair Symbol) (shapes : List Shape) :
    ofShapes (branches.map name) (shapes.map (Shape.rename name)) =
      (ofShapes branches shapes).rename name := by
  have start : Reading.start = Reading.start.rename name := by
    simp [Reading.start, Reading.rename, RightContext.rename, RightContext.empty]
  rw [ofShapes, List.foldl_map, start]
  exact congrArg Reading.context (List.foldl_hom (Reading.rename name)
    (Reading.add_rename injective branches))

theorem accepts_rename (injective : Function.Injective name) (context : RightContext)
    (scene : Scene) (id position : Nat) :
    (context.rename name).accepts (scene.rename name) id position =
      context.accepts scene id position := by
  rw [accepts, accepts, getElem?_nodes_rename, Option.any_map]
  congr 1
  funext node
  exact Scene.hasShape_rename injective scene position node.shape

section

variable (injective : Function.Injective name) (context : RightContext) (scene : Scene)
  (descend : Descent)
include injective

theorem tryBranch_rename (id : Nat) :
    (context.rename name).tryBranch (scene.rename name) descend id =
      context.tryBranch scene descend id := by
  funext further candidate state
  simp only [tryBranch, accepts_rename injective]

theorem assign_rename (candidates ids : List Nat) :
    (context.rename name).assign (scene.rename name) descend candidates ids =
      context.assign scene descend candidates ids := by
  induction ids with
  | nil => rfl
  | cons id rest induction =>
      funext state
      simp only [assign, tryBranch_rename injective, induction]

theorem matchFollower_rename :
    (context.rename name).matchFollower (scene.rename name) descend =
      context.matchFollower scene descend := by
  funext follower position matched
  simp only [matchFollower, Scene.successor?_rename injective, accepts_rename injective]

theorem matchLinks_rename :
    (context.rename name).matchLinks (scene.rename name) descend =
      context.matchLinks scene descend := by
  funext links position matched
  simp only [matchLinks, matchFollower_rename injective, Scene.children_rename injective,
    assign_rename injective]

end

theorem matchNode_eq (context : RightContext) (scene : Scene) (id position : Nat)
    (matched : Array Nat) :
    context.matchNode scene id position matched =
      match context.nodes[id]? with
      | none => (false, matched)
      | some node =>
        context.matchLinks scene (fun child place matched =>
          if id < child then context.matchNode scene child place matched
          else (false, matched))
          node.links position matched := by
  rw [matchNode]
  split
  · next isNone => rw [isNone]
  · next node isNode => rw [isNode]

theorem matchNode_rename (injective : Function.Injective name) (context : RightContext)
    (scene : Scene) (id position : Nat) (matched : Array Nat) :
    (context.rename name).matchNode (scene.rename name) id position matched =
      context.matchNode scene id position matched := by
  -- Links lead to later nodes only: the induction is on how many nodes are still to come.
  induction remaining : context.nodes.size - id using Nat.strongRecOn
    generalizing id position matched with
  | ind remaining induction =>
      rw [matchNode_eq, matchNode_eq, getElem?_nodes_rename]
      cases found : context.nodes[id]? with
      | none => rfl
      | some node =>
          have inside : id < context.nodes.size := (Array.getElem?_eq_some_iff.mp found).1
          simp only [Option.map_some, matchLinks_rename injective]
          congr 1
          funext child place matched
          split
          · exact induction _ (by omega) child place matched rfl
          · rfl

theorem match?_rename (injective : Function.Injective name) (context : RightContext)
    (scene : Scene) (position : Nat) :
    (context.rename name).match? (scene.rename name) position =
      context.match? scene position := by
  have nodes :
      (context.rename name).matchNode (scene.rename name) = context.matchNode scene := by
    funext id position matched
    exact matchNode_rename injective context scene id position matched
  have root : (context.rename name).root = context.root := rfl
  have size : (context.rename name).nodes.size = context.nodes.size :=
    size_rename name context
  simp only [match?, matchLinks_rename injective, nodes, root, size]

end RightContext

end LSystems
