import LSystems.Proofs.Scopes
import Mathlib.Data.List.Nodup

/-!
# The meaning of bound expressions

Binding succeeds exactly if the scope declares every name of an expression. On values
for all declared names the bound form has the value of the expression as written, each
name standing for the value that is given at its place, also if the expression has been
evaluated ahead. Main statement: `Scope.bind_of_declare`.
-/

namespace LSystems

namespace Expr

variable {expr left right : Expr} {operator : Operator} {known : List String}
    {name : String}

/-! ## Names -/

theorem mem_addNames_iff : name ∈ expr.addNames known ↔
    name ∈ known ∨ name ∈ expr.names := by
  induction expr generalizing known with
  | literal value => simp [addNames, names]
  | parameter other =>
      simp only [addNames, names, List.not_mem_nil, if_false, List.nil_append,
        List.mem_singleton]
      split
      · next isKnown => exact (or_iff_left_of_imp fun same => same ▸ isKnown).symm
      · rw [List.mem_append, List.mem_singleton]
  | negate operand induction => exact induction
  | combine operator left right first second =>
      have parts : name ∈ (combine operator left right).names ↔
          name ∈ left.names ∨ name ∈ right.names := second
      rw [addNames, second, first, parts, or_assoc]

@[simp]
theorem mem_names_combine :
    name ∈ (combine operator left right).names ↔ name ∈ left.names ∨ name ∈ right.names :=
  (mem_addNames_iff : name ∈ right.addNames left.names ↔ _)

theorem isConstant_eq_true_iff : expr.isConstant = true ↔ expr.names = [] := by
  induction expr with
  | literal value => exact iff_of_true rfl rfl
  | parameter name => exact iff_of_false Bool.false_ne_true (List.cons_ne_nil name [])
  | negate operand induction => exact induction
  | combine operator left right first second =>
      rw [isConstant, Bool.and_eq_true, first, second]
      simp only [List.eq_nil_iff_forall_not_mem, mem_names_combine, not_or, forall_and]

theorem value_congr {assignment other : String → Float}
    (agree : ∀ name ∈ expr.names, assignment name = other name) :
    expr.value assignment = expr.value other := by
  induction expr with
  | literal value => rfl
  | parameter name => exact agree name (List.mem_singleton_self name)
  | negate operand induction => exact congrArg (-·) (induction agree)
  | combine operator left right first second =>
      simp only [mem_names_combine] at agree
      exact congrArg₂ operator.apply (first fun name member => agree name (.inl member))
        (second fun name member => agree name (.inr member))

end Expr

namespace Scope

variable {scope : Scope} {expr : Expr} {bound : BoundExpr} {name : String}

/-! ## Binding -/

theorem exists_slot?_iff : (∃ slot, scope.slot? name = some slot) ↔
    name ∈ scope.names := by
  rw [slot?, names, List.mem_append]
  cases isCaptured : scope.captured.idxOf? name with
  | some place =>
      have member := List.isSome_idxOf?.mp (Option.isSome_of_eq_some isCaptured)
      exact iff_of_true ⟨_, rfl⟩ (.inl member)
  | none =>
      rw [or_iff_right (List.idxOf?_eq_none_iff.mp isCaptured), ← List.isSome_idxOf?,
        ← Option.isSome_iff_exists, Option.isSome_map]

theorem exists_resolve_iff :
    (∃ root, scope.resolve expr = .ok root) ↔
      ∀ name ∈ expr.names, name ∈ scope.names := by
  induction expr with
  | literal value => exact iff_of_true ⟨_, rfl⟩ nofun
  | parameter name =>
      have single : (∀ other ∈ (Expr.parameter name).names, other ∈ scope.names) ↔
          name ∈ scope.names := List.forall_mem_singleton
      rw [single, ← exists_slot?_iff, resolve]
      cases scope.slot? name with
      | none => simp
      | some slot => simp
  | negate operand induction =>
      refine Iff.trans ?_ induction
      simp only [resolve, bind_eq_ok, pure_eq_ok]
      constructor
      · rintro ⟨_, inner, resolved, _⟩
        exact ⟨inner, resolved⟩
      · rintro ⟨inner, resolved⟩
        exact ⟨_, inner, resolved, rfl⟩
  | combine operator left right first second =>
      simp only [Expr.mem_names_combine, or_imp, forall_and, ← first, ← second,
        resolve, bind_eq_ok, pure_eq_ok]
      constructor
      · rintro ⟨_, front, isFront, back, isBack, _⟩
        exact ⟨⟨front, isFront⟩, back, isBack⟩
      · rintro ⟨⟨front, isFront⟩, back, isBack⟩
        exact ⟨_, front, isFront, back, isBack, rfl⟩

theorem bind_eq_ok_iff :
    scope.bind expr = .ok bound ↔
      ∃ root, scope.resolve expr = .ok root ∧
        bound =
          ⟨expr, if expr.isConstant then .literal (root.evaluate [] []) else root⟩ := by
  simp only [bind, bind_eq_ok]
  refine exists_congr fun root => and_congr_right fun _ => ?_
  split
  · exact pure_eq_ok.trans eq_comm
  · exact pure_eq_ok.trans eq_comm

theorem exists_bind_iff :
    (∃ bound, scope.bind expr = .ok bound) ↔ ∀ name ∈ expr.names, name ∈ scope.names := by
  simp only [← exists_resolve_iff, bind_eq_ok_iff]
  exact ⟨fun ⟨_, root, resolved, _⟩ => ⟨root, resolved⟩, fun ⟨root, resolved⟩ =>
    ⟨_, root, resolved, rfl⟩⟩

theorem isConstant_of_bind (isBound : scope.bind expr = .ok bound) :
    bound.isConstant = true ↔ expr.names = [] := by
  rcases bind_eq_ok_iff.mp isBound with ⟨root, resolved, rfl⟩
  rw [← Expr.isConstant_eq_true_iff]
  cases isConstant : expr.isConstant with
  | true => exact iff_of_true rfl rfl
  | false =>
      refine iff_of_false (fun isLiteral => ?_) Bool.false_ne_true
      cases expr with
      | literal value => contradiction
      | parameter name =>
          rw [resolve] at resolved
          split at resolved
          · next slot found =>
              cases resolved
              rw [slot?] at found
              split at found
              · cases found
                contradiction
              · rcases Option.map_eq_some_iff.mp found with ⟨place, _, rfl⟩
                contradiction
          · contradiction
      | negate operand =>
          rcases bind_eq_ok.mp resolved with ⟨inner, _, isRoot⟩
          cases pure_eq_ok.mp isRoot
          contradiction
      | combine operator left right =>
          rcases bind_eq_ok.mp resolved with ⟨front, _, resolved⟩
          rcases bind_eq_ok.mp resolved with ⟨back, _, isRoot⟩
          cases pure_eq_ok.mp isRoot
          contradiction

/-! ## Values -/

/-- The value stands at the place at which the name is declared. -/
def Gives (scope : Scope) (captured globals : List Float) (name : String)
    (value : Float) : Prop :=
  (name, value) ∈ scope.captured.zip captured ++ scope.globals.zip globals

section Values

variable {captured globals : List Float} {assignment : String → Float}
  (distinct : scope.names.Nodup) (capturedCount : captured.length = scope.captured.length)
  (globalCount : globals.length = scope.globals.length)

include distinct capturedCount globalCount

theorem existsUnique_gives (declared : name ∈ scope.names) :
    ∃! value, scope.Gives captured globals name value := by
  have entries : (scope.captured.zip captured ++ scope.globals.zip globals).map Prod.fst =
      scope.names := by
    rw [List.map_append, List.map_fst_zip (Nat.le_of_eq capturedCount.symm),
      List.map_fst_zip (Nat.le_of_eq globalCount.symm), names]
  rw [← entries] at declared distinct
  rcases List.mem_map.mp declared with ⟨⟨_, value⟩, member, rfl⟩
  refine ⟨value, member, fun other isOther => ?_⟩
  have same := List.inj_on_of_nodup_map distinct isOther member rfl
  exact congrArg Prod.snd same

theorem assigns_of_gives
    (gives : ∀ name ∈ scope.names, scope.Gives captured globals name (assignment name)) :
    scope.Assigns captured globals assignment := by
  have given :
      ∀ name value, name ∈ scope.names → scope.Gives captured globals name value →
        value = assignment name := fun name value declared isGiven =>
    (existsUnique_gives distinct capturedCount globalCount declared).unique isGiven
      (gives name declared)
  constructor
  · intro place name isName
    have inside : place < scope.captured.length := (List.getElem?_eq_some_iff.mp isName).1
    have isValue : captured[place]? = some captured[place] :=
      List.getElem?_eq_getElem (capturedCount ▸ inside)
    have isEntry : (scope.captured.zip captured)[place]? = some (name, captured[place]) :=
      List.getElem?_zip_eq_some.mpr ⟨isName, isValue⟩
    rw [isValue, given name _ (List.mem_append_left _ (List.mem_of_getElem? isName))
      (List.mem_append_left _ (List.mem_of_getElem? isEntry))]
  · intro place name isName
    have inside : place < scope.globals.length := (List.getElem?_eq_some_iff.mp isName).1
    have isValue : globals[place]? = some globals[place] :=
      List.getElem?_eq_getElem (globalCount ▸ inside)
    have isEntry : (scope.globals.zip globals)[place]? = some (name, globals[place]) :=
      List.getElem?_zip_eq_some.mpr ⟨isName, isValue⟩
    rw [isValue, given name _ (List.mem_append_right _ (List.mem_of_getElem? isName))
      (List.mem_append_right _ (List.mem_of_getElem? isEntry))]

theorem exists_assigns :
    ∃ assignment, scope.Assigns captured globals assignment ∧
      ∀ name ∈ scope.names, scope.Gives captured globals name (assignment name) := by
  have given : ∀ name, ∃ value, name ∈ scope.names →
      scope.Gives captured globals name value := by
    intro name
    by_cases declared : name ∈ scope.names
    · rcases existsUnique_gives distinct capturedCount globalCount declared with
        ⟨value, gives, _⟩
      exact ⟨value, fun _ => gives⟩
    · exact ⟨0, fun isDeclared => absurd isDeclared declared⟩
  choose assignment gives using given
  exact ⟨assignment, assigns_of_gives distinct capturedCount globalCount gives, gives⟩

theorem evaluate?_of_gives (isBound : scope.bind expr = .ok bound)
    (gives : ∀ name ∈ expr.names, scope.Gives captured globals name (assignment name)) :
    bound.root.evaluate? captured globals = some (expr.value assignment) := by
  rcases exists_assigns distinct capturedCount globalCount with
    ⟨whole, assigns, wholeGives⟩
  have agree : ∀ name ∈ expr.names, assignment name = whole name := by
    intro name member
    have declared := exists_bind_iff.mp ⟨bound, isBound⟩ name member
    have unique := existsUnique_gives distinct capturedCount globalCount declared
    exact unique.unique (gives name member) (wholeGives name declared)
  rw [evaluate?_of_bind assigns isBound, (bind_spec isBound).1, Expr.value_congr agree]

theorem evaluate_of_gives (isBound : scope.bind expr = .ok bound)
    (gives : ∀ name ∈ expr.names, scope.Gives captured globals name (assignment name)) :
    bound.evaluate captured globals = expr.value assignment := by
  have inRange := (bind_spec isBound).2
  rw [← capturedCount, ← globalCount] at inRange
  have found := evaluate?_of_gives distinct capturedCount globalCount isBound gives
  rw [Slots.evaluate?_eq inRange] at found
  exact Option.some.inj found

end Values

theorem of_declare {names globalNames : List String}
    (declared : declare names globalNames = .ok scope) :
    scope = ⟨names, globalNames⟩ ∧ scope.names.Nodup := by
  have distinct := nodup_of_declare declared
  rw [declare] at declared
  split at declared
  · contradiction
  · cases declared
    exact ⟨rfl, distinct⟩

/-- Binding to a scope with different names succeeds exactly if they are all that occur.
The bound form is constant exactly if none occur. On values for all declared names it
reads nothing that is not there, and its value is that of the expression as written,
whatever assignment takes the names that occur to what they are given. It is the same as
without evaluating ahead, and the same as in every other scope in which these names are
given the same values. -/
theorem bind_of_declare {names globalNames : List String}
    (declared : declare names globalNames = .ok scope) (expr : Expr) :
    ((∃ bound, scope.bind expr = .ok bound) ↔
      ∀ name ∈ expr.names, name ∈ names ++ globalNames) ∧
    ∀ bound, scope.bind expr = .ok bound →
      (bound.isConstant = true ↔ expr.names = []) ∧
      ∀ captured globals : List Float,
        captured.length = names.length → globals.length = globalNames.length →
        (∀ name ∈ expr.names, ∃! value, scope.Gives captured globals name value) ∧
        (∀ assignment : String → Float,
          (∀ name ∈ expr.names, scope.Gives captured globals name (assignment name)) →
          bound.root.evaluate? captured globals = some (expr.value assignment) ∧
            bound.evaluate captured globals = expr.value assignment) ∧
        (∀ root, scope.resolve expr = .ok root →
          root.evaluate? captured globals = some (bound.evaluate captured globals)) ∧
        ∀ (otherNames otherGlobalNames : List String) (other : Scope)
          (otherBound : BoundExpr)
          (otherCaptured otherGlobals : List Float),
          declare otherNames otherGlobalNames = .ok other →
          other.bind expr = .ok otherBound →
          otherCaptured.length = otherNames.length →
          otherGlobals.length = otherGlobalNames.length →
          (∀ name ∈ expr.names, ∀ value, scope.Gives captured globals name value →
            other.Gives otherCaptured otherGlobals name value) →
          otherBound.evaluate otherCaptured otherGlobals =
            bound.evaluate captured globals := by
  rcases of_declare declared with ⟨rfl, distinct⟩
  refine ⟨exists_bind_iff, fun bound isBound => ⟨isConstant_of_bind isBound, ?_⟩⟩
  intro captured globals capturedCount globalCount
  have known := exists_bind_iff.mp ⟨bound, isBound⟩
  rcases exists_assigns distinct capturedCount globalCount with
    ⟨assignment, assigns, gives⟩
  have givesNames := fun name member => gives name (known name member)
  have value := evaluate_of_gives distinct capturedCount globalCount isBound givesNames
  refine ⟨fun name member => existsUnique_gives distinct capturedCount globalCount
      (known name member), fun other otherGives => ⟨?_, ?_⟩, fun root resolved => ?_, ?_⟩
  · exact evaluate?_of_gives distinct capturedCount globalCount isBound otherGives
  · exact evaluate_of_gives distinct capturedCount globalCount isBound otherGives
  · rw [evaluate?_of_resolve assigns resolved, value]
  · intro otherNames otherGlobalNames other otherBound otherCaptured
      otherGlobals otherDeclared
      otherIsBound otherCapturedCount otherGlobalCount alike
    rcases of_declare otherDeclared with ⟨rfl, otherDistinct⟩
    rw [value]
    exact evaluate_of_gives otherDistinct otherCapturedCount otherGlobalCount otherIsBound
      fun name member => alike name member _ (givesNames name member)

/-- Two scopes that declare the names of `x - y + g` in different places give them the
same values. -/
theorem bind_of_declare_reordered :
    let expr : Expr :=
      .combine .add (.combine .subtract (.parameter "x") (.parameter "y"))
        (.parameter "g")
    let assignment : String → Float := fun name =>
      if name = "x" then 10 else if name = "y" then 3 else 100
    ∃ (scope other : Scope) (bound otherBound : BoundExpr),
      declare ["x", "y"] ["g"] = .ok scope ∧ scope.bind expr = .ok bound ∧
      declare ["g"] ["y", "x"] = .ok other ∧ other.bind expr = .ok otherBound ∧
      (∀ name ∈ expr.names, scope.Gives [10, 3] [100] name (assignment name)) ∧
      bound.root.evaluate? [10, 3] [100] = some (expr.value assignment) ∧
      otherBound.evaluate [100] [3, 10] = bound.evaluate [10, 3] [100] := by
  intro expr assignment
  have declared : declare ["x", "y"] ["g"] = .ok ⟨["x", "y"], ["g"]⟩ := rfl
  have otherDeclared : declare ["g"] ["y", "x"] = .ok ⟨["g"], ["y", "x"]⟩ := rfl
  have names : expr.names = ["x", "y", "g"] := rfl
  have occur := bind_of_declare declared expr
  rcases occur.1.mpr (by simp [names]) with ⟨bound, isBound⟩
  rcases (bind_of_declare otherDeclared expr).1.mpr (by simp [names]) with
    ⟨otherBound, otherIsBound⟩
  have gives : ∀ name ∈ expr.names,
      Gives ⟨["x", "y"], ["g"]⟩ [10, 3] [100] name (assignment name) := by
    simp [names, Gives, assignment]
  have alike :
      ∀ name ∈ expr.names, ∀ value, Gives ⟨["x", "y"], ["g"]⟩ [10, 3] [100] name value →
        Gives ⟨["g"], ["y", "x"]⟩ [100] [3, 10] name value := by
    simp [names, Gives]
  rcases occur.2 bound isBound with ⟨_, means⟩
  rcases means [10, 3] [100] rfl rfl with ⟨_, values, _, elsewhere⟩
  exact ⟨_, _, bound, otherBound, declared, isBound, otherDeclared, otherIsBound, gives,
    (values assignment gives).1,
    elsewhere _ _ _ otherBound [100] [3, 10] otherDeclared otherIsBound rfl rfl alike⟩

end Scope

end LSystems
