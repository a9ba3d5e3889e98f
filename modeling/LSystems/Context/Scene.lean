import LSystems.Brackets
import LSystems.Word

/-!
# Walking through a word with branches

A branch hangs on the symbol before its opening bracket. This module finds the symbols
next to a position: the one that follows at the same level, the ones that start the
branches behind it, and the one that it follows or branches off. Ignored symbols are
looked through, and a bracket without a partner ends every walk.
-/

namespace LSystems

structure Shape where
  symbol : Symbol
  arity : Nat
deriving DecidableEq, Repr

structure Scene where
  word : Word
  branches : BranchPair Symbol
  table : BracketTable
  ignored : SymbolSet

namespace Scene

def ofWord (branches : BranchPair Symbol) (ignored : SymbolSet) (word : Word) : Scene :=
  ⟨word, branches, BracketTable.ofSymbols branches word.symbols, ignored⟩

def symbol? (scene : Scene) (position : Nat) : Option Symbol :=
  scene.word.symbols[position]?

def hasShape (scene : Scene) (position : Nat) (shape : Shape) : Bool :=
  scene.symbol? position = some shape.symbol && scene.word.arity position = shape.arity

theorem hasShape_iff {scene : Scene} {position : Nat} {shape : Shape} :
    scene.hasShape position shape = true ↔
      scene.symbol? position = some shape.symbol ∧
      scene.word.arity position = shape.arity := by
  simp only [hasShape, Bool.and_eq_true, decide_eq_true_eq]

def behindBranch? (scene : Scene) (position : Nat) : Option Nat :=
  match scene.table.partner? position with
  | some partner => if position < partner then some (partner + 1) else none
  | none => none

def branchStart? (scene : Scene) (position : Nat) : Option Nat :=
  match scene.table.partner? position with
  | some partner => if partner < position then some partner else none
  | none => none

theorem lt_behindBranch {scene : Scene} {position behind : Nat}
    (found : scene.behindBranch? position = some behind) : position < behind := by
  unfold behindBranch? at found
  split at found
  · split at found
    · injection found with found
      omega
    · contradiction
  · contradiction

theorem branchStart_lt {scene : Scene} {position start : Nat}
    (found : scene.branchStart? position = some start) : start < position := by
  unfold branchStart? at found
  split at found
  · split at found
    · injection found with found
      omega
    · contradiction
  · contradiction

theorem lt_size {scene : Scene} {position : Nat} {symbol : Symbol}
    (found : scene.symbol? position = some symbol) : position < scene.word.size := by
  obtain ⟨inside, _⟩ := Array.getElem?_eq_some_iff.mp found
  exact inside

/-- The first symbol at or behind `position` on the same level, past complete branches. -/
def forward? (scene : Scene) (position : Nat) : Option Nat :=
  match _found : scene.symbol? position with
  | none => none
  | some symbol =>
    if scene.ignored.contains symbol then scene.forward? (position + 1)
    else if symbol = scene.branches.opening then
      match _jump : scene.behindBranch? position with
      | some behind => scene.forward? behind
      | none => none
    else if symbol = scene.branches.closing then none
    else some position
termination_by scene.word.size - position
decreasing_by
  all_goals
    have inside := lt_size _found
    try have later := lt_behindBranch _jump
    omega

def successor? (scene : Scene) (position : Nat) : Option Nat :=
  scene.forward? (position + 1)

/-- The first symbols of a branch whose text starts at `position`. Branches in front of
its first symbol hang on the same symbol as the branch itself, so they count too. -/
def branchHeads (scene : Scene) (position : Nat) : List Nat :=
  match _found : scene.symbol? position with
  | none => []
  | some symbol =>
    if scene.ignored.contains symbol then scene.branchHeads (position + 1)
    else if symbol = scene.branches.opening then
      scene.branchHeads (position + 1) ++
        match _jump : scene.behindBranch? position with
        | some behind => scene.branchHeads behind
        | none => []
    else if symbol = scene.branches.closing then []
    else [position]
termination_by scene.word.size - position
decreasing_by
  all_goals
    have inside := lt_size _found
    try have later := lt_behindBranch _jump
    omega

def branchesFrom (scene : Scene) (position : Nat) : List Nat :=
  match _found : scene.symbol? position with
  | none => []
  | some symbol =>
    if scene.ignored.contains symbol then scene.branchesFrom (position + 1)
    else if symbol = scene.branches.opening then
      scene.branchHeads (position + 1) ++
        match _jump : scene.behindBranch? position with
        | some behind => scene.branchesFrom behind
        | none => []
    else []
termination_by scene.word.size - position
decreasing_by
  all_goals
    have inside := lt_size _found
    try have later := lt_behindBranch _jump
    omega

def children (scene : Scene) (position : Nat) : List Nat :=
  scene.branchesFrom (position + 1)

/-- The last symbol before `position` that is on its level or on one around it, past
complete branches. -/
def parent? (scene : Scene) (position : Nat) : Option Nat :=
  match position with
  | 0 => none
  | before + 1 =>
    match scene.symbol? before with
    | none => none
    | some symbol =>
      if symbol = scene.branches.opening || scene.ignored.contains symbol then
        scene.parent? before
      else if symbol = scene.branches.closing then
        match _jump : scene.branchStart? before with
        | some start => scene.parent? start
        | none => none
      else some before
termination_by position
decreasing_by
  · omega
  · have earlier := branchStart_lt _jump
    omega

end Scene

end LSystems
