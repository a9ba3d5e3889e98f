import LSystems.Proofs.Expr.Grammar
import LSystems.Proofs.Outcomes

/-!
# Groups

The members of a group make an expression exactly if they are operands, each with or
without a sign, and one operator between any two. Main statement: `ofGroup_eq_ok_iff`.
-/

namespace LSystems

inductive GroupPart
  | operand (expr : Expr)
  | operator (operator : Operator)

def GroupItem.part : GroupItem → GroupPart
  | operand expr _ => .operand expr
  | operator op _ => .operator op

namespace GroupPart

inductive Signed : List GroupPart → Expr → Prop
  | plain (expr : Expr) : Signed [operand expr] expr
  | negate (expr : Expr) : Signed [operator .subtract, operand expr] expr.negate

inductive Chain : List GroupPart → Expr → List (Operator × Expr) → Prop
  | last {parts first} : Signed parts first → Chain parts first []
  | more {parts first op further next rest} :
      Signed parts first → Chain further next rest →
      Chain (parts ++ operator op :: further) first ((op, next) :: rest)

end GroupPart

namespace GroupItem

variable {items joined : List GroupItem} {first : Expr} {rest : List (Operator × Expr)}

theorem getLast?_of_chain? (isChain : chain? items = some (first, rest)) :
    ∃ expr span, items.getLast? = some (operand expr span) := by
  fun_induction chain? items generalizing first rest with
  | case1 expr span => exact ⟨expr, span, rfl⟩
  | case2 expr span op place further induction =>
      rcases Option.bind_eq_some_iff.mp isChain with ⟨⟨next, more⟩, isFurther, _⟩
      rcases induction isFurther with ⟨last, at_, isLast⟩
      exact ⟨last, at_, by simp [List.getLast?_cons, isLast]⟩
  | case3 => contradiction

open GroupPart

/-! ## Chains that are found -/

theorem behind_operand {expr : Expr} {span : Span} (few : thirdOperator? 0 items = none)
    (signs : joinSigns false items = .ok joined)
    (isChain : chain? (operand expr span :: joined) = some (first, rest)) :
    first = expr ∧
      ((items = [] ∧ rest = []) ∨
        ∃ op place further others next more, items = operator op place :: further ∧
          rest = (op, next) :: more ∧ thirdOperator? 1 further = none ∧
          joinSigns true further = .ok others ∧ chain? others = some (next, more)) := by
  cases items with
  | nil =>
      cases signs
      cases isChain
      exact ⟨rfl, .inl ⟨rfl, rfl⟩⟩
  | cons item further =>
      cases item with
      | operand other place =>
          rcases bind_eq_ok.mp signs with ⟨others, _, isJoined⟩
          cases isJoined
          contradiction
      | operator op place =>
          rcases bind_eq_ok.mp signs with ⟨others, areOthers, isJoined⟩
          cases isJoined
          rcases Option.bind_eq_some_iff.mp isChain with ⟨⟨next, more⟩, isFurther, same⟩
          cases same
          exact ⟨rfl,
            .inr ⟨op, place, further, others, next, more, rfl, rfl, few,
              areOthers, isFurther⟩⟩

theorem exists_signed (few : thirdOperator? 1 items = none)
    (signs : joinSigns true items = .ok joined)
    (isChain : chain? joined = some (first, rest)) :
    ∃ parts expr span behind others,
      Signed parts expr ∧ items.map part = parts ++ behind.map part ∧
      behind.length < items.length ∧ thirdOperator? 0 behind = none ∧
      joinSigns false behind = .ok others ∧ joined = operand expr span :: others := by
  cases items with
  | nil =>
      cases signs
      contradiction
  | cons item behind =>
      cases item with
      | operand expr span =>
          rcases bind_eq_ok.mp signs with ⟨others, areOthers, isJoined⟩
          cases isJoined
          exact ⟨_, expr, span, behind, others, .plain expr, rfl, Nat.lt_succ_self _,
            few, areOthers, rfl⟩
      | operator op span =>
          rcases bind_eq_ok.mp signs with ⟨others, areOthers, isJoined⟩
          simp only [Bool.not_true, Bool.false_eq_true, if_false] at isJoined
          split at isJoined
          · contradiction
          · next isMinus =>
              have isMinus : op = .subtract := by simpa using isMinus
              subst isMinus
              cases behind with
              | nil =>
                  cases areOthers
                  contradiction
              | cons item behind =>
                  cases item with
                  | operator => contradiction
                  | operand expr place =>
                      rcases bind_eq_ok.mp areOthers with ⟨further, areFurther, isOthers⟩
                      cases isOthers
                      cases isJoined
                      have shorter := Nat.lt_succ_of_lt (Nat.lt_succ_self behind.length)
                      exact ⟨_, _, _, behind, further, .negate expr, rfl, shorter,
                        few, areFurther, rfl⟩

theorem chain_of_joinSigns (few : thirdOperator? 1 items = none)
    (signs : joinSigns true items = .ok joined)
    (isChain : chain? joined = some (first, rest)) :
    Chain (items.map part) first rest := by
  induction length :
    items.length using Nat.strongRecOn generalizing items joined first rest with
  | ind length induction =>
      subst length
      rcases exists_signed few signs isChain with
        ⟨parts, expr, span, behind, others, signed, same, shorter, fewBehind,
          areOthers, rfl⟩
      rw [same]
      rcases behind_operand fewBehind areOthers isChain with
        ⟨rfl, ⟨rfl, rfl⟩ | ⟨op, place, further, others, next, more, rfl, rfl,
          fewFurther, signsFurther, isFurther⟩⟩
      · rw [List.map_nil, List.append_nil]
        exact .last signed
      · have isShorter := Nat.lt_of_succ_lt shorter
        exact .more signed (induction _ isShorter fewFurther signsFurther isFurther rfl)

/-! ## Chains that are there -/

theorem joinSigns_operand {behind : List GroupItem}
    (signs : joinSigns false behind = .ok joined) (isSign : Bool) (expr : Expr)
    (span : Span) :
    joinSigns isSign (operand expr span :: behind) =
      .ok (operand expr span :: joined) := by
  rw [joinSigns, signs]
  rfl

theorem joinSigns_of_signed {parts : List GroupPart} {expr : Expr}
    (signed : Signed parts expr) (same : items.map part = parts) {behind : List GroupItem}
    (few : thirdOperator? 0 behind = none) (signs : joinSigns false behind = .ok joined) :
    thirdOperator? 1 (items ++ behind) = none ∧
      ∃ span, joinSigns true (items ++ behind) = .ok (operand expr span :: joined) := by
  cases signed with
  | plain expr =>
      rcases List.map_eq_singleton_iff.mp same with ⟨item, rfl, isPart⟩
      cases item with
      | operator => contradiction
      | operand _ span =>
          cases isPart
          exact ⟨few, span, joinSigns_operand signs true expr span⟩
  | negate expr =>
      rcases List.map_eq_cons_iff.mp same with ⟨sign, others, rfl, isSign, same⟩
      rcases List.map_eq_singleton_iff.mp same with ⟨item, rfl, isPart⟩
      cases sign with
      | operand => contradiction
      | operator _ span =>
          cases isSign
          cases item with
          | operator => contradiction
          | operand _ place =>
              cases isPart
              refine ⟨few, span.join place, ?_⟩
              have inner := joinSigns_operand signs true expr place
              rw [List.cons_append, List.singleton_append, joinSigns, inner]
              rfl

theorem joinSigns_of_chain {parts : List GroupPart} (isChain : Chain parts first rest)
    (same : items.map part = parts) :
    thirdOperator? 1 items = none ∧
      ∃ joined, joinSigns true items = .ok joined ∧
        chain? joined = some (first, rest) := by
  induction isChain generalizing items with
  | last signed =>
      have none : thirdOperator? 0 [] = none := rfl
      have nothing : joinSigns false [] = .ok [] := rfl
      rcases joinSigns_of_signed signed same none nothing with ⟨few, span, signs⟩
      rw [List.append_nil] at few signs
      exact ⟨few, _, signs, rfl⟩
  | @more parts first op further next rest signed _ induction =>
      rcases List.map_eq_append_iff.mp same with ⟨front, behind, rfl, isFront, isBehind⟩
      rcases List.map_eq_cons_iff.mp isBehind with ⟨item, back, rfl, isOperator, isBack⟩
      cases item with
      | operand => contradiction
      | operator _ place =>
          cases isOperator
          rcases induction isBack with ⟨fewBack, joined, signsBack, isChain⟩
          have few : thirdOperator? 0 (operator op place :: back) = none := fewBack
          have signs : joinSigns false (operator op place :: back) =
              .ok (operator op place :: joined) := by
            rw [joinSigns, signsBack]
            rfl
          rcases joinSigns_of_signed signed isFront few signs with
            ⟨fewAll, span, signsAll⟩
          exact ⟨fewAll, _, signsAll, by simp [chain?, isChain]⟩

end GroupItem

open GroupItem GroupPart

theorem Expr.ofGroup_eq_ok_iff {span : Span} {items : List GroupItem} {expr : Expr} :
    ofGroup span items = .ok expr ↔
      ∃ first rest, Chain (items.map part) first rest ∧ joinLevels first rest = expr := by
  constructor
  · intro made
    simp only [ofGroup] at made
    split at made
    · contradiction
    · split at made
      · contradiction
      · next few =>
          rcases bind_eq_ok.mp made with ⟨joined, signs, made⟩
          split at made
          · contradiction
          · split at made
            · next first rest isChain =>
                have few := Option.eq_none_iff_forall_ne_some.mpr few
                exact ⟨first, rest, chain_of_joinSigns few signs isChain,
                  Except.ok.inj made⟩
            · contradiction
  · rintro ⟨first, rest, isChain, rfl⟩
    rcases joinSigns_of_chain isChain rfl with ⟨few, joined, signs, isJoined⟩
    rcases getLast?_of_chain? isJoined with ⟨last, place, isLast⟩
    have nonempty : items.isEmpty = false := by
      cases items with
      | nil =>
          cases signs
          contradiction
      | cons => rfl
    simp only [ofGroup, nonempty, few, Bool.false_eq_true, if_false]
    refine bind_eq_ok.mpr ⟨joined, signs, ?_⟩
    simp only [isLast, isJoined]
    rfl

end LSystems
