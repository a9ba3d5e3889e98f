import LSystems.Proofs.Scopes
import LSystems.Table.Basic

/-!
# Productions as they are read

A production that has been read names its captured parameters in the order of its
pattern, and its expressions are bound to these names and those of the global
parameters.
-/

namespace LSystems

namespace Reading

variable {α β : Type}

@[simp]
theorem outcome_bind (first : Reading α) (next : α → Reading β) :
    (first >>= next).outcome = first.outcome >>= fun result => (next result).outcome := by
  change (Reading.bind first next).outcome = _
  rw [Reading.bind]
  cases first.outcome with
  | error => rfl
  | ok => rfl

@[simp]
theorem outcome_pure (result : α) : (pure result : Reading α).outcome = .ok result := rfl

@[simp]
theorem outcome_lift (outcome : Except Error α) : (lift outcome).outcome = outcome := rfl

end Reading

theorem of_readPieces {α : Type} {meaning : Piece → Except Error α} {pieces : List Piece}
    {failure : Option Error} {results : List α}
    (done : (readPieces meaning (pieces, failure)).outcome = .ok results) :
    failure = none ∧
      List.Forall₂ (fun piece result => meaning piece = .ok result) pieces results := by
  induction pieces generalizing results with
  | nil =>
      cases failure with
      | none =>
          rw [readPieces] at done
          cases done
          exact ⟨rfl, .nil⟩
      | some =>
          rw [readPieces] at done
          contradiction
  | cons piece rest induction =>
      simp only [readPieces, Reading.outcome_bind, Reading.outcome_lift,
        Reading.outcome_pure, bind_eq_ok] at done
      rcases done with ⟨first, isFirst, _, _, further, areFurther, equal⟩
      cases equal
      rcases induction areFurther with ⟨isNone, related⟩
      exact ⟨isNone, .cons isFirst related⟩

theorem exists_of_mem_readPieces {α : Type} {meaning : Piece → Except Error α}
    {pieces : List Piece} {failure : Option Error} {results : List α}
    (done : (readPieces meaning (pieces, failure)).outcome = .ok results) {result : α}
    (member : result ∈ results) : ∃ piece ∈ pieces, meaning piece = .ok result := by
  rcases List.mem_iff_getElem.mp member with ⟨place, inside, rfl⟩
  have related := (of_readPieces done).2
  have alsoInside : place < pieces.length := related.length_eq ▸ inside
  exact ⟨pieces[place], List.getElem_mem alsoInside, related.get alsoInside inside⟩

theorem bind_of_mem_readEmissions {scope : Scope} {fragment : Fragment}
    {emissions : List (Emission Char)}
    (done : (readEmissions scope fragment).outcome = .ok emissions)
    {emission : Emission Char} (isEmission : emission ∈ emissions) {expr : BoundExpr}
    (isParameter : expr ∈ emission.parameters) : scope.bind expr.source = .ok expr := by
  obtain ⟨piece, _, isMeaning⟩ := exists_of_mem_readPieces done isEmission
  simp only [Emission.ofPiece, bind_eq_ok, pure_eq_ok] at isMeaning
  obtain ⟨parameters, compiled, rfl⟩ := isMeaning
  obtain ⟨argument, _, compiled⟩ := exists_of_mem_mapM compiled isParameter
  split at compiled
  · next found isCompiled =>
      obtain rfl := Except.ok.inj compiled
      exact Scope.bind_of_compile isCompiled
  · contradiction

theorem of_readBalanced {scope : Scope} {branches : BranchPair Char} {place : Section}
    {fragment : Fragment} {emissions : List (Emission Char)}
    (done : (readBalanced scope branches place fragment).outcome = .ok emissions) :
    (readEmissions scope fragment).outcome = .ok emissions ∧
      checkBalance branches place []
        (emissions.map fun emission => (emission.symbol, emission.span)) = .ok () := by
  simp only [readBalanced, Reading.outcome_bind, Reading.outcome_lift,
    Reading.outcome_pure, bind_eq_ok] at done
  obtain ⟨_, areEmissions, _, isBalanced, equal⟩ := done
  cases equal
  exact ⟨areEmissions, isBalanced⟩

theorem outcome_readBalanced {scope : Scope} {branches : BranchPair Char}
    {place : Section} {fragment : Fragment} {emissions : List (Emission Char)}
    (areRead : (readEmissions scope fragment).outcome = .ok emissions)
    (isBalanced : checkBalance branches place []
      (emissions.map fun emission => (emission.symbol, emission.span)) = .ok ()) :
    (readBalanced scope branches place fragment).outcome = .ok emissions := by
  simp only [readBalanced, Reading.outcome_bind, Reading.outcome_lift,
    Reading.outcome_pure, bind_eq_ok]
  exact ⟨emissions, areRead, (), isBalanced, rfl⟩

namespace Production

/-- What a production promises once it has been read. -/
structure Bound (globals : List String) (branches : BranchPair Char)
    (production : Production) : Prop where
  captured_eq : production.captured = production.pattern.flatMap PatternSymbol.names
  condition : ∀ expr ∈ production.condition,
    (Scope.mk production.captured globals).bind expr.source = .ok expr
  replacement : ∀ emission ∈ production.replacement, ∀ expr ∈ emission.parameters,
    (Scope.mk production.captured globals).bind expr.source = .ok expr
  names_nodup : (production.captured ++ globals).Nodup
  target_free : branches.contains production.target.letter = false
  left_free : ∀ symbol ∈ production.left, branches.contains symbol.letter = false
  branch_bare : ∀ symbol ∈ production.right, branches.contains symbol.letter = true →
    symbol.names = []
  balanced : checkBalance branches .replacement []
    (production.replacement.map fun emission => (emission.symbol, emission.span)) = .ok ()

theorem capture_eq {globals known captured : List String} {pattern : List (String × Span)}
    (done : capture globals known pattern = .ok captured) :
    captured = known ++ pattern.map Prod.fst := by
  induction pattern generalizing known with
  | nil =>
      cases done
      exact (List.append_nil _).symm
  | cons head rest induction =>
      obtain ⟨name, span⟩ := head
      rw [capture] at done
      split at done
      · contradiction
      · split at done
        · contradiction
        · rw [induction done]
          exact List.append_assoc ..

theorem names_of_declarations (pattern : List PatternSymbol) :
    (declarations pattern).map Prod.fst = pattern.flatMap PatternSymbol.names := by
  simp [declarations, List.map_flatMap, Function.comp_def]

theorem declare_eq {captured globals : List String} {scope : Scope}
    (done : Scope.declare captured globals = .ok scope) :
    scope = ⟨captured, globals⟩ := by
  rw [Scope.declare] at done
  split at done
  · contradiction
  · exact (Except.ok.inj done).symm

theorem of_checkBranches {branches : BranchPair Char} {left right : List PatternSymbol}
    {target : PatternSymbol} (done : checkBranches branches left target right = .ok ()) :
    branches.contains target.letter = false ∧
      (∀ symbol ∈ left, branches.contains symbol.letter = false) ∧
      (∀ symbol ∈ right, branches.contains symbol.letter = true → symbol.names = []) ∧
      checkBalance branches .rightContext []
        (right.map fun symbol => (symbol.letter, symbol.span)) = .ok () := by
  simp only [checkBranches] at done
  split at done
  · cases done
  · next targetFree =>
      split at done
      · cases done
      · next leftFree =>
          split at done
          · cases done
          · next bare =>
              have leftFree :=
                List.find?_eq_none.mp (Option.eq_none_iff_forall_ne_some.mpr leftFree)
              have bare :=
                List.find?_eq_none.mp (Option.eq_none_iff_forall_ne_some.mpr bare)
              refine ⟨by simpa using targetFree, ?_, ?_, done⟩
              · intro symbol member
                simpa using leftFree symbol member
              · intro symbol member isBranch
                simpa [isBranch] using bare symbol (List.mem_append_right _ member)

theorem bind_of_readCondition {scope : Scope} {fragment : Option Fragment}
    {condition : Option BoundExpr} (done : readCondition scope fragment = .ok condition)
    {expr : BoundExpr} (isCondition : expr ∈ condition) :
    scope.bind expr.source = .ok expr := by
  unfold readCondition at done
  split at done
  · cases done
    contradiction
  · split at done
    · contradiction
    · split at done
      · next found compiled =>
          cases done
          obtain rfl := Option.some.inj isCondition
          exact Scope.bind_of_compile compiled
      · contradiction

/-- What has been read one after another when a production has been read. -/
structure Parts (globals : List String) (branches : BranchPair Char)
    (production : Production) : Prop where
  context : ∃ fragment, (readContext branches fragment).outcome =
    .ok (production.left, production.target, production.right)
  captured :
    capture globals [] (declarations production.pattern) = .ok production.captured
  declared :
    Scope.declare production.captured globals = .ok ⟨production.captured, globals⟩
  condition : ∃ fragment,
    readCondition ⟨production.captured, globals⟩ fragment = .ok production.condition
  replacement : ∃ fragment,
    (readBalanced ⟨production.captured, globals⟩ branches .replacement fragment).outcome =
      .ok production.replacement

theorem parts_of_read {globals : List String} {branches : BranchPair Char} {text : String}
    {production : Production}
    (done : (read globals branches text).outcome = .ok production) :
    production.Parts globals branches := by
  simp only [read, Reading.outcome_bind, Reading.outcome_lift, Reading.outcome_pure,
    bind_eq_ok] at done
  obtain ⟨outline, _, probability, _, ⟨left, target, right⟩, isContext, captured,
    isCaptured, scope, isScope, condition, isCondition, replacement, isReplacement,
    isProduction⟩ := done
  cases isProduction
  obtain rfl := declare_eq isScope
  exact ⟨⟨_, isContext⟩, isCaptured, isScope, ⟨_, isCondition⟩, ⟨_, isReplacement⟩⟩

theorem checkBranches_of_readContext {branches : BranchPair Char} {fragment : Fragment}
    {left right : List PatternSymbol} {target : PatternSymbol}
    (done : (readContext branches fragment).outcome = .ok (left, target, right)) :
    checkBranches branches left target right = .ok () := by
  simp only [readContext, Reading.outcome_bind, Reading.outcome_lift,
    Reading.outcome_pure, bind_eq_ok] at done
  obtain ⟨_, _, _, _, _, _, _, _, _, _, _, areBranches, isContext⟩ := done
  cases isContext
  exact areBranches

theorem bound_of_read {globals : List String} {branches : BranchPair Char} {text : String}
    {production : Production}
    (done : (read globals branches text).outcome = .ok production) :
    production.Bound globals branches := by
  have parts := parts_of_read done
  obtain ⟨_, isContext⟩ := parts.context
  have ⟨targetFree, leftFree, bare, _⟩ :=
    of_checkBranches (checkBranches_of_readContext isContext)
  obtain ⟨_, isCondition⟩ := parts.condition
  obtain ⟨_, isReplacement⟩ := parts.replacement
  exact
    { captured_eq := by
        rw [capture_eq parts.captured, names_of_declarations]
        rfl
      condition := fun _ => bind_of_readCondition isCondition
      replacement := fun _ isEmission _ =>
        bind_of_mem_readEmissions (of_readBalanced isReplacement).1 isEmission
      names_nodup := Scope.nodup_of_declare parts.declared
      target_free := targetFree
      left_free := leftFree
      branch_bare := bare
      balanced := (of_readBalanced isReplacement).2 }

theorem forall₂_of_readAll {globals : List String}
    {branches : BranchPair Char} {index : Nat} {texts : List String}
    {productions : List Production}
    (done : (readAll globals branches index texts).outcome = .ok productions) :
    List.Forall₂ (fun text production =>
      (read globals branches text).outcome = .ok production)
      texts productions := by
  induction texts generalizing index productions with
  | nil =>
      cases done
      exact .nil
  | cons text rest induction =>
      simp only [readAll, Reading.outcome_bind, Reading.outcome_pure, bind_eq_ok] at done
      obtain ⟨first, isFirst, further, areFurther, equal⟩ := done
      obtain rfl := Except.ok.inj equal
      exact .cons (mapError_eq_ok.mp isFirst) (induction areFurther)

end Production

end LSystems
