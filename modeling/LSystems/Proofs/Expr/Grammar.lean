import LSystems.Expr.Parse
import Mathlib.Data.List.Induction

/-!
# The grammar of expressions

Which rows of tokens are expressions, and of which tree. Operators come in levels and
are read from the left within a level; a sign binds tighter than all of them. Reading a
chain of operands level by level comes to the one tree that the grammar has for it. Main
statement: `climbs_iff`.
-/

namespace LSystems

namespace Operator

/-- The operators of each tier, those that bind tightest first. -/
def tiers : List (List Operator) :=
  [[power],
    [multiply, divide, remainder],
    [add, subtract],
    [greater, less, greaterEqual, lessEqual],
    [equal, notEqual],
    [both],
    [either]]

theorem mem_tiers (operator : Operator) : operator ∈ tiers.getD operator.level [] := by
  cases operator <;> decide

theorem level_of_mem_tiers {operator : Operator} {tier : Nat}
    (member : operator ∈ tiers.getD tier []) : operator.level = tier := by
  by_cases inside : tier < tiers.length
  · have all : ∀ place : Fin tiers.length, ∀ operator ∈ tiers.getD place [],
        operator.level = place := by decide
    exact all ⟨tier, inside⟩ operator member
  · rw [List.getD_eq_getElem?_getD,
      List.getElem?_eq_none (Nat.le_of_not_lt inside)] at member
    contradiction

end Operator

/-- The kinds of expressions that operators take: operands, operands with or without a
sign, and those that are joined by the operators of a number of tiers. -/
inductive Rung
  | primary
  | unary
  | binary (tiers : Nat)

abbrev Rung.whole : Rung :=
  .binary Operator.tiers.length

namespace Expr

open Operator

/-- The row of tokens is an expression with this tree. -/
inductive Derives : Rung → List TokenKind → Expr → Prop
  | number (value : Float) : Derives .primary [.number value] (literal value)
  | name (name : String) : Derives .primary [.name name] (parameter name)
  | group {row expr} : Derives .whole row expr →
      Derives .primary (.opening :: (row ++ [.closing])) expr
  | plain {row expr} : Derives .primary row expr → Derives .unary row expr
  | negate {row expr} : Derives .primary row expr →
      Derives .unary (.operator .subtract :: row) (negate expr)
  | single {row expr} : Derives .unary row expr → Derives (.binary 0) row expr
  | tighter {tier row expr} : Derives (.binary tier) row expr →
      Derives (.binary (tier + 1)) row expr
  | combine {tier operator left right first second} : operator ∈ tiers.getD tier [] →
      Derives (.binary (tier + 1)) left first → Derives (.binary tier) right second →
      Derives (.binary (tier + 1)) (left ++ .operator operator :: right)
        (combine operator first second)

/-! ## Chains -/

/-- The tree of a chain of operands whose operators have levels below the bound. -/
inductive Climbs : (bound : Nat) → Expr → List (Operator × Expr) → Expr → Prop
  | single {first} : Climbs 0 first [] first
  | tighter {bound first rest expr} : Climbs bound first rest expr →
      Climbs (bound + 1) first rest expr
  | combine {operator first front left next back right} :
      Climbs (operator.level + 1) first front left →
        Climbs operator.level next back right →
      Climbs (operator.level + 1) first (front ++ (operator, next) :: back)
        (combine operator left right)

def joinBelow (bound : Nat) (first : Expr) (rest : List (Operator × Expr)) :
    Expr × List (Operator × Expr) :=
  (List.range bound).foldl (fun (first, rest) level => joinLevel level first rest)
    (first, rest)

variable {bound level : Nat} {first next expr left : Expr} {operator : Operator}
  {front back rest : List (Operator × Expr)}

theorem joinBelow_succ (bound : Nat) (first : Expr) (rest : List (Operator × Expr)) :
    joinBelow (bound + 1) first rest =
      joinLevel bound (joinBelow bound first rest).1 (joinBelow bound first rest).2 := by
  simp [joinBelow, List.range_succ]

theorem joinLevel_append_of_ne (different : operator.level ≠ level) (first next : Expr)
    (front back : List (Operator × Expr)) :
    joinLevel level first (front ++ (operator, next) :: back) =
      ((joinLevel level first front).1,
        (joinLevel level first front).2 ++
          (operator, (joinLevel level next back).1) ::
          (joinLevel level next back).2) := by
  induction front generalizing first with
  | nil => simp [joinLevel, different]
  | cons head front induction =>
      rcases head with ⟨other, operand⟩
      rw [List.cons_append, joinLevel, joinLevel]
      split
      · exact induction _
      · rw [induction]
        rfl

theorem joinLevel_append_of_joined (joined : joinLevel level first front = (left, [])) :
    joinLevel level first (front ++ back) = joinLevel level left back := by
  induction front generalizing first with
  | nil =>
      cases joined
      rfl
  | cons head front induction =>
      rcases head with ⟨other, operand⟩
      rw [joinLevel] at joined
      rw [List.cons_append, joinLevel]
      split at joined
      · next same =>
          rw [if_pos same]
          exact induction joined
      · cases joined

theorem joinBelow_append (notBelow : bound ≤ operator.level) (first next : Expr)
    (front back : List (Operator × Expr)) :
    joinBelow bound first (front ++ (operator, next) :: back) =
      ((joinBelow bound first front).1,
        (joinBelow bound first front).2 ++
          (operator, (joinBelow bound next back).1) ::
          (joinBelow bound next back).2) := by
  induction bound with
  | zero => rfl
  | succ bound induction =>
      rw [joinBelow_succ, induction (Nat.le_of_succ_le notBelow), joinBelow_succ,
        joinBelow_succ]
      exact joinLevel_append_of_ne (Nat.ne_of_gt notBelow) _ _ _ _

theorem Climbs.joinBelow_eq (climbs : Climbs bound first rest expr) :
    joinBelow bound first rest = (expr, []) := by
  induction climbs with
  | single => rfl
  | tighter _ induction =>
      rw [joinBelow_succ, induction]
      rfl
  | @combine operator first front left next back right _ _ onLeft onRight =>
      rw [joinBelow_succ] at onLeft ⊢
      rw [joinBelow_append (Nat.le_refl _), onRight, joinLevel_append_of_joined onLeft]
      simp [joinLevel]

theorem climbs_nil (bound : Nat) (first : Expr) : Climbs bound first [] first := by
  induction bound with
  | zero => exact .single
  | succ bound induction => exact .tighter induction

theorem Climbs.exists_concat (climbs : Climbs bound first rest expr)
    (below : operator.level < bound) (next : Expr) :
    ∃ whole, Climbs bound first (rest ++ [(operator, next)]) whole := by
  induction climbs with
  | single => contradiction
  | @tighter bound first rest expr climbs induction =>
      rcases Nat.lt_succ_iff_lt_or_eq.mp below with below | rfl
      · rcases induction below with ⟨whole, climbs⟩
        exact ⟨whole, .tighter climbs⟩
      · exact ⟨_, .combine (.tighter climbs) (climbs_nil _ next)⟩
  | @combine other first front left middle back right onLeft onRight _ induction =>
      rcases Nat.lt_succ_iff_lt_or_eq.mp below with below | same
      · rcases induction below with ⟨whole, climbs⟩
        rw [List.append_assoc, List.cons_append]
        exact ⟨_, .combine onLeft climbs⟩
      · have whole := Climbs.combine onLeft onRight
        rw [← same] at whole ⊢
        exact ⟨_, .combine whole (climbs_nil _ next)⟩

theorem exists_climbs (first : Expr) (rest : List (Operator × Expr))
    (below : ∀ member ∈ rest, member.1.level < bound) :
    ∃ expr, Climbs bound first rest expr := by
  induction rest using List.reverseRecOn with
  | nil => exact ⟨first, climbs_nil bound first⟩
  | append_singleton rest last induction =>
      have front : ∀ member ∈ rest, member.1.level < bound := by
        intro member isMember
        exact below member (List.mem_append_left _ isMember)
      have atEnd := below last (List.mem_append_right _ (List.mem_singleton_self last))
      rcases induction front with ⟨expr, climbs⟩
      exact climbs.exists_concat atEnd last.2

/-- Reading a chain level by level comes to the one tree that the grammar has for it. -/
theorem climbs_iff : Climbs Operator.levels first rest expr ↔
    joinLevels first rest = expr := by
  have joined : joinLevels first rest = (joinBelow Operator.levels first rest).1 := rfl
  constructor
  · intro climbs
    rw [joined, climbs.joinBelow_eq]
  · intro same
    have below : ∀ member ∈ rest, member.1.level < Operator.levels :=
      fun member _ => member.1.level_lt
    rcases exists_climbs first rest below with ⟨whole, climbs⟩
    rw [joined, climbs.joinBelow_eq] at same
    exact same ▸ climbs

end Expr

end LSystems
