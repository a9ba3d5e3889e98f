import LSystems.Expr.Scope
import LSystems.Proofs.Outcomes

/-!
# Binding

A bound expression keeps what it was made of, and its places lie in the lists of values
of the scope that it was bound to.
-/

namespace LSystems

theorem Slots.evaluate?_eq {captured globals : List Float} {root : Slots}
    (inRange : root.InRange captured.length globals.length) :
    root.evaluate? captured globals = some (root.evaluate captured globals) := by
  induction root with
  | literal value => rfl
  | captured place =>
      have inside : place < captured.length := inRange
      simp [evaluate?, evaluate, inside]
  | global place =>
      have inside : place < globals.length := inRange
      simp [evaluate?, evaluate, inside]
  | negate operand induction =>
      have inner : operand.InRange captured.length globals.length := inRange
      simp [evaluate?, evaluate, induction inner]
  | combine operator left right first second =>
      obtain ⟨onLeft, onRight⟩ := inRange
      simp [evaluate?, evaluate, first onLeft, second onRight]

namespace Scope

variable {scope : Scope} {expr : Expr} {bound : BoundExpr}

theorem slot?_inRange {name : String} {slot : Slots}
    (found : scope.slot? name = some slot) :
    slot.InRange scope.captured.length scope.globals.length := by
  rw [slot?] at found
  split at found
  · next place isPlace =>
      obtain rfl := Option.some.inj found
      obtain ⟨inside, _⟩ := List.idxOf?_eq_some_iff.mp isPlace
      exact inside
  · obtain ⟨place, isPlace, rfl⟩ := Option.map_eq_some_iff.mp found
    obtain ⟨inside, _⟩ := List.idxOf?_eq_some_iff.mp isPlace
    exact inside

theorem resolve_inRange {root : Slots} (resolved : scope.resolve expr = .ok root) :
    root.InRange scope.captured.length scope.globals.length := by
  induction expr generalizing root with
  | literal value =>
      obtain rfl := pure_eq_ok.mp resolved
      trivial
  | parameter name =>
      rw [resolve] at resolved
      split at resolved
      · next slot found =>
          cases resolved
          exact slot?_inRange found
      · contradiction
  | negate operand induction =>
      simp only [resolve, bind_eq_ok, pure_eq_ok] at resolved
      obtain ⟨inner, isInner, rfl⟩ := resolved
      have inside := induction isInner
      exact inside
  | combine operator left right first second =>
      simp only [resolve, bind_eq_ok, pure_eq_ok] at resolved
      obtain ⟨front, isFront, back, isBack, rfl⟩ := resolved
      exact ⟨first isFront, second isBack⟩

theorem bind_spec (isBound : scope.bind expr = .ok bound) :
    bound.source = expr ∧
      bound.root.InRange scope.captured.length scope.globals.length := by
  simp only [bind, bind_eq_ok] at isBound
  obtain ⟨root, resolved, isBound⟩ := isBound
  split at isBound
  · obtain rfl := pure_eq_ok.mp isBound
    exact ⟨rfl, trivial⟩
  · obtain rfl := pure_eq_ok.mp isBound
    exact ⟨rfl, resolve_inRange resolved⟩

theorem bind_of_compile {text : List Char} (compiled : scope.compile text = .ok bound) :
    scope.bind bound.source = .ok bound := by
  simp only [compile, bind_eq_ok] at compiled
  obtain ⟨expr, _, isBound⟩ := compiled
  rw [(bind_spec isBound).1, isBound]

/-! ## Declared names -/

theorem nodup_of_firstRepeated? {known names : List String}
    (unrepeated : firstRepeated? known names = none) :
    names.Nodup ∧ ∀ name ∈ names, name ∉ known := by
  induction names generalizing known with
  | nil => exact ⟨List.nodup_nil, nofun⟩
  | cons name rest induction =>
      rw [firstRepeated?] at unrepeated
      split at unrepeated
      · contradiction
      · next isNew =>
          have further := induction unrepeated
          constructor
          · apply List.nodup_cons.mpr
            exact ⟨fun again => further.2 name again (List.mem_cons_self ..), further.1⟩
          · refine List.forall_mem_cons.mpr ⟨isNew, fun other member isKnown => ?_⟩
            exact further.2 other member (List.mem_cons_of_mem name isKnown)

theorem nodup_of_declare {captured globals : List String}
    (done : declare captured globals = .ok scope) : (captured ++ globals).Nodup := by
  rw [declare] at done
  split at done
  · contradiction
  · next unrepeated => exact (nodup_of_firstRepeated? unrepeated).1

/-! ## Values -/

section Values

variable {captured globals : List Float} {assignment : String → Float}

/-- The values of declared names are where the names are declared. -/
structure Assigns (scope : Scope) (captured globals : List Float)
    (assignment : String → Float) : Prop where
  captured : ∀ (place : Nat) (name : String),
    scope.captured[place]? = some name → captured[place]? = some (assignment name)
  globals : ∀ (place : Nat) (name : String),
    scope.globals[place]? = some name → globals[place]? = some (assignment name)

private theorem getElem?_of_idxOf? {names : List String} {name : String} {place : Nat}
    (found : names.idxOf? name = some place) : names[place]? = some name := by
  obtain ⟨inside, isName, _⟩ := List.idxOf?_eq_some_iff.mp found
  rw [List.getElem?_eq_getElem inside, isName]

theorem evaluate?_of_slot? (assigns : scope.Assigns captured globals assignment)
    {name : String} {slot : Slots} (found : scope.slot? name = some slot) :
    slot.evaluate? captured globals = some (assignment name) := by
  rw [slot?] at found
  split at found
  · next place isPlace =>
      cases found
      exact assigns.captured place name (getElem?_of_idxOf? isPlace)
  · obtain ⟨place, isPlace, rfl⟩ := Option.map_eq_some_iff.mp found
    exact assigns.globals place name (getElem?_of_idxOf? isPlace)

theorem evaluate?_of_resolve (assigns : scope.Assigns captured globals assignment)
    {root : Slots} (resolved : scope.resolve expr = .ok root) :
    root.evaluate? captured globals = some (expr.value assignment) := by
  induction expr generalizing root with
  | literal value =>
      cases resolved
      rfl
  | parameter name =>
      rw [resolve] at resolved
      split at resolved
      · next slot found =>
          cases resolved
          exact evaluate?_of_slot? assigns found
      · contradiction
  | negate operand induction =>
      simp only [resolve, bind_eq_ok, pure_eq_ok] at resolved
      obtain ⟨inner, isInner, rfl⟩ := resolved
      simp [Slots.evaluate?, induction isInner, Expr.value]
  | combine operator left right first second =>
      simp only [resolve, bind_eq_ok, pure_eq_ok] at resolved
      obtain ⟨front, isFront, back, isBack, rfl⟩ := resolved
      simp [Slots.evaluate?, first isFront, second isBack, Expr.value]

theorem evaluate_of_isConstant {root : Slots} (isConstant : expr.isConstant = true)
    (resolved : scope.resolve expr = .ok root) (captured globals : List Float)
    (assignment : String → Float) :
    root.evaluate captured globals = expr.value assignment := by
  induction expr generalizing root with
  | literal value =>
      cases resolved
      rfl
  | parameter name => contradiction
  | negate operand induction =>
      simp only [resolve, bind_eq_ok, pure_eq_ok] at resolved
      obtain ⟨inner, isInner, rfl⟩ := resolved
      exact congrArg (-·) (induction isConstant isInner)
  | combine operator left right first second =>
      simp only [resolve, bind_eq_ok, pure_eq_ok] at resolved
      obtain ⟨front, isFront, back, isBack, rfl⟩ := resolved
      simp only [Expr.isConstant, Bool.and_eq_true] at isConstant
      exact congrArg₂ operator.apply (first isConstant.1 isFront)
        (second isConstant.2 isBack)

theorem evaluate?_of_bind (assigns : scope.Assigns captured globals assignment)
    (isBound : scope.bind expr = .ok bound) :
    bound.root.evaluate? captured globals = some (bound.source.value assignment) := by
  simp only [bind, bind_eq_ok] at isBound
  obtain ⟨root, resolved, isBound⟩ := isBound
  split at isBound
  · next isConstant =>
      cases isBound
      exact congrArg some (evaluate_of_isConstant isConstant resolved [] [] assignment)
  · cases isBound
    exact evaluate?_of_resolve assigns resolved

end Values

end Scope

end LSystems
