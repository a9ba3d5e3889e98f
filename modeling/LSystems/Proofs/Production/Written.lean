import LSystems.Proofs.Balance
import LSystems.Proofs.Expr.Written
import LSystems.Proofs.Production.Outline

/-!
# Rules as text

A rule that is put together from its parts is written as
`P(probability) | left < target > right : condition -> replacement`, without what it
does not have. The text is read as a production with exactly these parts. Main
statement: `RuleForm.exists_read_text`.
-/

namespace LSystems

/-! ## Expressions between marks -/

def exprText (expr : Expr) : List Char :=
  expr.text.toList

namespace Expr

theorem exprText_negate (operand : Expr) :
    exprText (negate operand) = '-' :: exprText operand :=
  toList_text_negate operand

theorem exprText_combine (operator : Operator) (left right : Expr) :
    exprText (combine operator left right) =
      '(' ::
        ((exprText left ++
          (' ' :: (operator.symbol.toList ++ [' ']) ++ exprText right)) ++
        [')']) := by
  rw [exprText, toList_text_combine]
  simp [exprText]

variable {known : List String} {expr : Expr}

theorem Legible.nested (legible : expr.Legible known) : Nested (exprText expr) := by
  induction expr with
  | literal value => exact (isArgument_numeralText legible.1).nested
  | parameter name => exact (isArgument_name legible.1).nested
  | negate operand induction =>
      rw [exprText_negate]
      exact .free (by decide) (induction legible.2)
  | combine operator left right onLeft onRight =>
      have symbol : Nested (' ' :: (operator.symbol.toList ++ [' '])) := by
        cases operator <;> exact .of_free (by simp [Operator.symbol])
      rw [exprText_combine]
      exact .group ((onLeft legible.1).append (symbol.append (onRight legible.2))) .nil

theorem Legible.not_mem_comma (legible : expr.Legible known) : ',' ∉ exprText expr := by
  induction expr with
  | literal value => exact (isArgument_numeralText legible.1).single
  | parameter name => exact (isArgument_name legible.1).single
  | negate operand induction =>
      rw [exprText_negate]
      simpa using induction legible.2
  | combine operator left right onLeft onRight =>
      have symbol : ',' ∉ operator.symbol.toList := by cases operator <;> decide
      rw [exprText_combine]
      simpa [symbol] using And.intro (onLeft legible.1) (onRight legible.2)

theorem Legible.notBlank (legible : expr.Legible known) :
    (exprText expr).all Text.isBlank = false := by
  cases expr with
  | literal value => exact (isArgument_numeralText legible.1).notBlank
  | parameter name => exact (isArgument_name legible.1).notBlank
  | negate operand =>
      rw [exprText_negate]
      rfl
  | combine operator left right =>
      rw [exprText_combine]
      rfl

theorem Legible.isArgument (legible : expr.Legible known) : IsArgument (exprText expr) :=
  ⟨legible.nested, legible.not_mem_comma, legible.notBlank⟩

/-- Operators have blanks around them, so no minus makes an arrow with a `>` behind it. -/
theorem Legible.arrowless (legible : expr.Legible known) : Arrowless (exprText expr) := by
  induction expr with
  | literal value =>
      exact (unmarked_of_plain (not_mem_reserved_of_mem_numeralText legible.1)).arrowless
  | parameter name =>
      exact (unmarked_of_plain (not_mem_reserved_of_mem_name legible.1)).arrowless
  | negate operand induction =>
      rw [exprText_negate]
      exact .free (by decide) (induction legible.2)
  | combine operator left right onLeft onRight =>
      have symbol : Arrowless (' ' :: (operator.symbol.toList ++ [' '])) := by
        cases operator with
        | greater => exact .mark (by decide) (.of_free (by simp))
        | greaterEqual =>
            exact .mark (by decide) (.free (by decide) (.free (by decide) .nil))
        | _ => exact .of_free (by simp [Operator.symbol])
      have inside := (onLeft legible.1).append (symbol.append (onRight legible.2))
      rw [exprText_combine]
      exact .free (by decide) (inside.append (.free (by decide) .nil))

end Expr

/-! ## Patterns -/

def PatternSymbol.term (symbol : PatternSymbol) : Term String :=
  ⟨symbol.letter, symbol.names⟩

def Emission.term (emission : Emission Char) : Term Expr :=
  ⟨emission.symbol, emission.parameters.map BoundExpr.source⟩

theorem trim_name {name blanks : List Char} (isName : Text.isName name = true)
    (blank : blanks.all Text.isBlank = true) : Text.trim (blanks ++ name) = name := by
  have notBlank : ∀ character ∈ name, Text.isBlank character = false := fun _ member =>
    Text.isBlank_of_continuesName (Text.continuesName_of_mem isName _ member)
  have front : Text.dropBlanks name = name :=
    dropBlanks_of_head? fun character isHead =>
      notBlank character (List.mem_of_head? isHead)
  have back : Text.dropBlanks name.reverse = name.reverse :=
    dropBlanks_of_head? fun character isHead =>
      notBlank character (List.mem_reverse.mp (List.mem_of_head? isHead))
  rw [Text.trim, dropBlanks_append blank, front, back, List.reverse_reverse]

namespace Production

variable {globals names : List String} {branches : BranchPair Char}

def Spelled (terms : List (Term String)) : Prop :=
  ∀ term ∈ terms, isLetterSymbol term.letter = true ∧
    ∀ name ∈ term.arguments, Text.isName name.toList = true

variable {terms : List (Term String)}

theorem Spelled.legible (spelled : Spelled terms) :
    ∀ term ∈ terms, term.Legible String.toList :=
  fun term isTerm => ⟨(spelled term isTerm).1,
    fun name isName => isArgument_name ((spelled term isTerm).2 name isName)⟩

theorem Spelled.unmarked (spelled : Spelled terms) :
    Unmarked (rowText String.toList terms) :=
  unmarked_rowText (fun term isTerm => (spelled term isTerm).1) fun term isTerm
    name isName =>
    unmarked_of_plain (not_mem_reserved_of_mem_name ((spelled term isTerm).2 name isName))

theorem readName_of_padded {argument : Fragment} {name : String}
    (isName : Text.isName name.toList = true)
    (padded : Padded argument.text name.toList) :
    readName argument = .ok name := by
  rcases padded with ⟨blanks, blank, isText⟩
  rw [readName]
  simp only [isText, trim_name isName blank, isName, if_true, String.ofList_toList]

theorem exists_patternSymbol {piece : Piece} {term : Term String}
    (areNames : ∀ name ∈ term.arguments, Text.isName name.toList = true)
    (shows : Shows String.toList piece term) :
    ∃ symbol, patternSymbol piece = .ok symbol ∧ symbol.term = term := by
  have named :
      ∃ names, ((piece.arguments.map (Fragment.arguments false)).getD []).mapM readName =
      .ok names ∧ List.Forall₂ Eq names term.arguments := by
    apply exists_mapM (shows.arguments false)
    intro name member argument padded
    exact ⟨name, readName_of_padded (areNames name member) padded, rfl⟩
  rcases named with ⟨names, areRead, same⟩
  cases List.forall₂_eq_eq_eq ▸ same
  refine ⟨⟨piece.letter, term.arguments, piece.span⟩,
    bind_eq_ok.mpr ⟨_, areRead, rfl⟩, ?_⟩
  rw [PatternSymbol.term, shows.letter]

theorem exists_readPattern (spelled : Spelled terms) {fragment : Fragment}
    (around : Around fragment.text (rowText String.toList terms)) :
    ∃ pattern, (readPattern fragment).outcome = .ok pattern ∧
      pattern.map PatternSymbol.term = terms := by
  rcases fragment with ⟨offset, _⟩
  rcases around with ⟨front, back, blankFront, blankBack, rfl⟩
  have isRead := exists_readPieces spelled.legible
    (fun term isTerm _ shows => exists_patternSymbol (spelled term isTerm).2 shows)
    blankFront blankBack offset
  rcases isRead with ⟨pattern, isOutcome, same⟩
  refine ⟨pattern, isOutcome, ?_⟩
  rwa [← List.forall₂_eq_eq_eq, List.forall₂_map_left_iff]

def rowText? (terms : List (Term String)) : Option (List Char) :=
  if terms.isEmpty then none else some (rowText String.toList terms)

theorem exists_readPattern? (spelled : Spelled terms) {fragment : Option Fragment}
    (shown : Option.Rel (fun fragment text => Around fragment.text text) fragment
      (rowText? terms)) :
    ∃ pattern, (readPattern? fragment).outcome = .ok pattern ∧
      pattern.map PatternSymbol.term = terms := by
  cases terms with
  | nil =>
      cases shown
      exact ⟨[], rfl, rfl⟩
  | cons term rest =>
      cases shown with
      | some around => exact exists_readPattern spelled around

/-! ## Checks -/

theorem capture_of_nodup {known : List String} {pattern : List (String × Span)}
    (nodup : (known ++ pattern.map Prod.fst).Nodup)
    (apart : ∀ name ∈ pattern.map Prod.fst, name ∉ globals) :
    capture globals known pattern = .ok (known ++ pattern.map Prod.fst) := by
  induction pattern generalizing known with
  | nil => rw [capture, List.map_nil, List.append_nil]
  | cons head rest induction =>
      rcases head with ⟨name, span⟩
      rw [List.map_cons] at nodup apart
      rcases List.forall_mem_cons.mp apart with ⟨isApart, apart⟩
      have isNew : name ∉ known := fun isKnown =>
        (List.nodup_append.mp nodup).2.2 name isKnown name (List.mem_cons_self ..) rfl
      have joined :
          known ++ name :: rest.map Prod.fst = known ++ [name] ++ rest.map Prod.fst := by
        simp
      rw [joined] at nodup
      rw [capture, if_neg isNew, if_neg isApart, induction nodup apart,
        List.map_cons, joined]

theorem firstRepeated?_of_nodup {known names : List String} (nodup : names.Nodup)
    (apart : ∀ name ∈ names, name ∉ known) : Scope.firstRepeated? known names = none := by
  induction names generalizing known with
  | nil => rfl
  | cons name rest induction =>
      rcases List.nodup_cons.mp nodup with ⟨isNew, nodup⟩
      rcases List.forall_mem_cons.mp apart with ⟨isApart, apart⟩
      rw [Scope.firstRepeated?, if_neg isApart]
      apply induction nodup
      intro other member
      rw [List.mem_cons, not_or]
      exact ⟨fun same => isNew (same ▸ member), apart other member⟩

theorem declare_of_nodup (nodup : (names ++ globals).Nodup) :
    Scope.declare names globals = .ok ⟨names, globals⟩ := by
  rw [Scope.declare, firstRepeated?_of_nodup nodup fun _ _ => List.not_mem_nil]

theorem checkBranches_eq_ok {left right : List PatternSymbol} {target : PatternSymbol}
    (targetFree : branches.contains target.letter = false)
    (leftFree : ∀ symbol ∈ left, branches.contains symbol.letter = false)
    (bare : ∀ symbol ∈ right, branches.contains symbol.letter = true → symbol.names = [])
    (balanced : branches.depth? 0 (right.map PatternSymbol.letter) = some 0) :
    checkBranches branches left target right = .ok () := by
  have noLeft : left.find? (fun pattern => branches.contains pattern.letter) = none :=
    List.find?_eq_none.mpr fun symbol member => by simp [leftFree symbol member]
  have noneBare : (left ++ right).find? (fun pattern =>
      branches.contains pattern.letter && !pattern.names.isEmpty) = none := by
    apply List.find?_eq_none.mpr
    intro symbol member
    rcases List.mem_append.mp member with isLeft | isRight
    · simp [leftFree symbol isLeft]
    · cases isBranch : branches.contains symbol.letter with
      | false => simp
      | true => simp [bare symbol isRight isBranch]
  have isBalanced : checkBalance branches .rightContext []
      (right.map fun pattern => (pattern.letter, pattern.span)) = .ok () := by
    apply checkBalance_eq_ok_iff.mpr
    rw [List.map_map]
    exact balanced
  rw [checkBranches]
  simp only [targetFree, noLeft, noneBare, isBalanced]
  rfl

end Production

/-! ## Forms of rules -/

/-- A rule in parts: the names of the parameters in its contexts and its target, and
expressions for all else. -/
structure RuleForm where
  probability : Option Float
  left : List (Term String)
  target : Term String
  right : List (Term String)
  condition : Option Expr
  replacement : List (Term Expr)

/-- What a production is made of, without the places where it stands in the text of the
production. -/
def Production.form (production : Production) : RuleForm where
  probability := production.probability.map Prod.fst
  left := production.left.map PatternSymbol.term
  target := production.target.term
  right := production.right.map PatternSymbol.term
  condition := production.condition.map BoundExpr.source
  replacement := production.replacement.map Emission.term

namespace RuleForm

open Production (Spelled rowText?)

def pattern (form : RuleForm) : List (Term String) :=
  form.left ++ form.target :: form.right

def names (form : RuleForm) : List String :=
  form.pattern.flatMap Term.arguments

def letters (form : RuleForm) : List Char :=
  form.pattern.map Term.letter ++ form.replacement.map Term.letter

/-- The pattern as it is written: `left < target > right`. -/
def patternText (form : RuleForm) : List Char :=
  ContextOutline.leftPart (rowText? form.left) ++
    (form.target.text String.toList ++ ContextOutline.rightPart (rowText? form.right))

/-- The rule as it is written: `P(probability) | pattern : condition -> replacement`. -/
def text (form : RuleForm) : String :=
  String.ofList (Outline.probabilityPart (form.probability.map numeralText) ++
    (form.patternText ++ ' ' :: Outline.conditionPart (form.condition.map exprText)) ++
    '-' :: '>' :: ' ' :: rowText exprText form.replacement)

example :
    text ⟨none, [⟨'A', ["x"]⟩, ⟨'-', []⟩], ⟨'P', ["y", "z"]⟩,
      [⟨'[', []⟩, ⟨'B', []⟩, ⟨']', []⟩],
      some (.combine .greater (.parameter "x") (.parameter "g")),
      [⟨'C', [.negate (.parameter "y"), .parameter "z"]⟩]⟩ =
      "A(x)- < P(y, z) > [B] : (x > g) -> C(-y, z)" := by
  decide +kernel

/-- The rule is one of the grammar of rules: what it is made of can be written and read,
every name is declared once, branch symbols stand where they may, and branches are
balanced. -/
structure Legible (globals : List String) (branches : BranchPair Char)
    (form : RuleForm) : Prop where
  probability : ∀ value ∈ form.probability, value.isFinite = true
  pattern : Spelled form.pattern
  nodup : (form.names ++ globals).Nodup
  target_free : branches.contains form.target.letter = false
  left_free : ∀ term ∈ form.left, branches.contains term.letter = false
  right_bare : ∀ term ∈ form.right, branches.contains term.letter = true →
    term.arguments = []
  right_balanced : branches.depth? 0 (form.right.map Term.letter) = some 0
  condition : ∀ expr ∈ form.condition, expr.Legible (form.names ++ globals)
  replacement : ∀ term ∈ form.replacement, isLetterSymbol term.letter = true ∧
    ∀ expr ∈ term.arguments, expr.Legible (form.names ++ globals)
  replacement_balanced : branches.depth? 0 (form.replacement.map Term.letter) = some 0

variable {globals : List String} {branches : BranchPair Char} {form : RuleForm}

namespace Legible

theorem left (legible : form.Legible globals branches) : Spelled form.left :=
  fun term member => legible.pattern term (List.mem_append_left _ member)

theorem target (legible : form.Legible globals branches) : Spelled [form.target] := by
  intro term member
  cases List.mem_singleton.mp member
  exact legible.pattern _ (List.mem_append_right _ (List.mem_cons_self ..))

theorem right (legible : form.Legible globals branches) : Spelled form.right :=
  fun term member =>
    legible.pattern term (List.mem_append_right _ (List.mem_cons_of_mem _ member))

theorem unmarked_rowText? {terms : List (Term String)} (spelled : Spelled terms) :
    ∀ text ∈ rowText? terms, Unmarked text := by
  intro text isText
  rw [rowText?] at isText
  split at isText
  · contradiction
  · cases isText
    exact spelled.unmarked

theorem unmarked_target (legible : form.Legible globals branches) :
    Unmarked (form.target.text String.toList) := by
  have unmarked := legible.target.unmarked
  rwa [rowText, List.flatMap_singleton] at unmarked

/-- What stands behind the first row of a rule is no list of arguments and no bar, so
that a leading `P` is a letter. -/
theorem splitProbability?_patternText (legible : form.Legible globals branches)
    (condition : Option (List Char)) :
    Outline.splitProbability?
      (form.patternText ++ ' ' :: Outline.conditionPart condition) = none := by
  have conditionResumes : Outline.Resumes (' ' :: Outline.conditionPart condition) := by
    cases condition with
    | none => nofun
    | some text =>
        rintro _ ⟨⟩
        decide
  rw [patternText]
  cases isLeft : form.left with
  | nil =>
      have resumes : Outline.Resumes (ContextOutline.rightPart (rowText? form.right) ++
          ' ' :: Outline.conditionPart condition) := by
        cases rowText? form.right with
        | none => exact conditionResumes
        | some right =>
            rintro _ ⟨⟩
            decide
      have isTarget := legible.target.legible form.target (List.mem_singleton_self _)
      have noTerm :
          ∀ term ∈ ([] : List (Term String)), term.Legible String.toList := nofun
      have absent := Outline.splitProbability?_rowText isTarget noTerm resumes
      simpa [rowText, rowText?, ContextOutline.leftPart] using absent
  | cons term rest =>
      have resumes :
          Outline.Resumes (' ' :: '<' :: ' ' ::
            (form.target.text String.toList ++
              (ContextOutline.rightPart (rowText? form.right) ++
            ' ' :: Outline.conditionPart condition))) := by
        rintro _ ⟨⟩
        decide
      have terms := isLeft ▸ legible.left.legible
      rcases List.forall_mem_cons.mp terms with ⟨first, further⟩
      have absent := Outline.splitProbability?_rowText first further resumes
      simpa [rowText?, ContextOutline.leftPart] using absent

end Legible

/-! ## Reading what is written -/

theorem exists_readProbability {value? : Option Float}
    (finite : ∀ value ∈ value?, value.isFinite = true) {found : Option (List Char × Span)}
    (shown : found.map Prod.fst = value?.map numeralText) :
    ∃ probability, Production.readProbability found = .ok probability ∧
      probability.map Prod.fst = value? := by
  cases value? with
  | none =>
      rw [Option.map_eq_none_iff.mp shown]
      exact ⟨none, rfl, rfl⟩
  | some value =>
      rcases Option.map_eq_some_iff.mp shown with ⟨⟨_, span⟩, rfl, rfl⟩
      rcases Scope.exists_compile_floatText Scope.empty (finite value rfl)
        (rfl : [].all Text.isBlank = true) with ⟨bound, compiled, isRoot⟩
      have evaluated : evaluateConstant (numeralText value) = .ok value := by
        refine bind_eq_ok.mpr ⟨bound, compiled, congrArg Except.ok ?_⟩
        rw [BoundExpr.evaluate, isRoot, Slots.evaluate]
      refine ⟨some (value, span), ?_, rfl⟩
      simp only [Production.readProbability, evaluated]

theorem exists_readContext (legible : form.Legible globals branches) {fragment : Fragment}
    (around : Around fragment.text form.patternText) :
    ∃ left target right,
      (Production.readContext branches fragment).outcome = .ok (left, target, right) ∧
      left.map PatternSymbol.term = form.left ∧ target.term = form.target ∧
      right.map PatternSymbol.term = form.right := by
  rcases ContextOutline.exists_ofFragment (Legible.unmarked_rowText? legible.left)
    legible.unmarked_target (Legible.unmarked_rowText? legible.right) around with
    ⟨outline, isOutline, shows⟩
  have aroundTarget :
      Around outline.target.text (rowText String.toList [form.target]) := by
    rw [rowText, List.flatMap_singleton]
    exact shows.target
  rcases Production.exists_readPattern? legible.left shows.left with
    ⟨left, isLeft, sameLeft⟩
  rcases Production.exists_readPattern legible.target aroundTarget with
    ⟨targets, areTargets, sameTargets⟩
  rcases Production.exists_readPattern? legible.right shows.right with
    ⟨right, isRight, sameRight⟩
  rcases List.map_eq_singleton_iff.mp sameTargets with ⟨target, rfl, sameTarget⟩
  have targetFree : branches.contains target.letter = false := by
    have free := legible.target_free
    rwa [← sameTarget] at free
  have leftFree : ∀ symbol ∈ left, branches.contains symbol.letter = false :=
    fun symbol member =>
    legible.left_free symbol.term (sameLeft ▸ List.mem_map_of_mem member)
  have bare : ∀ symbol ∈ right, branches.contains symbol.letter = true →
      symbol.names = [] :=
    fun symbol member =>
      legible.right_bare symbol.term (sameRight ▸ List.mem_map_of_mem member)
  have balanced : branches.depth? 0 (right.map PatternSymbol.letter) = some 0 := by
    have balanced := legible.right_balanced
    rwa [← sameRight, List.map_map] at balanced
  have checked := Production.checkBranches_eq_ok targetFree leftFree bare balanced
  refine ⟨left, target, right, ?_, sameLeft, sameTarget, sameRight⟩
  simp only [Production.readContext, Reading.outcome_bind, Reading.outcome_lift,
    Reading.outcome_pure, bind_eq_ok]
  exact ⟨outline, isOutline, left, isLeft, [target], areTargets, right, isRight,
    target, rfl, (), checked, rfl⟩

theorem exists_readCondition (scope : Scope) {condition : Option Expr}
    (legible : ∀ expr ∈ condition, expr.Legible scope.names) {fragment : Option Fragment}
    (shown : Option.Rel (fun fragment text => Around fragment.text text) fragment
      (condition.map exprText)) :
    ∃ found, Production.readCondition scope fragment = .ok found ∧
      found.map BoundExpr.source = condition := by
  cases condition with
  | none =>
      cases shown
      exact ⟨none, rfl, rfl⟩
  | some expr =>
      have isLegible := legible expr rfl
      cases shown with
      | @some fragment _ around =>
          rcases fragment with ⟨offset, _⟩
          rcases around with ⟨front, back, blankFront, blankBack, rfl⟩
          have notBlank :
              Fragment.isBlank ⟨offset, front ++ (exprText expr ++ back)⟩ = false := by
            simp only [Fragment.isBlank, List.all_append, isLegible.notBlank,
              Bool.false_and, Bool.and_false]
          rcases Scope.exists_compile_text isLegible blankFront blankBack with
            ⟨bound, compiled, isSource⟩
          have compiled : scope.compile (front ++ (exprText expr ++ back)) = .ok bound :=
            compiled
          refine ⟨some bound, ?_, congrArg some isSource⟩
          simp only [Production.readCondition, notBlank, compiled,
            Bool.false_eq_true, if_false]

theorem map_term_of_meets {replacement : List (Emission Char)} {terms : List (Term Expr)}
    (met : List.Forall₂ (Emission.Meets fun bound expr => bound.source = expr)
      replacement terms) :
    replacement.map Emission.term = terms := by
  rw [← List.forall₂_eq_eq_eq, List.forall₂_map_left_iff]
  refine met.imp fun emission term meets => ?_
  have parameters := meets.parameters
  rw [← List.forall₂_map_left_iff, List.forall₂_eq_eq_eq] at parameters
  rw [Emission.term, meets.letter, parameters]

theorem exists_readReplacement (scope : Scope) {terms : List (Term Expr)}
    (legible : ∀ term ∈ terms, isLetterSymbol term.letter = true ∧
      ∀ expr ∈ term.arguments, expr.Legible scope.names)
    (balanced : branches.depth? 0 (terms.map Term.letter) = some 0) {fragment : Fragment}
    (around : Around fragment.text (rowText exprText terms)) :
    ∃ replacement,
      (readBalanced scope branches .replacement fragment).outcome = .ok replacement ∧
      replacement.map Emission.term = terms := by
  rcases fragment with ⟨offset, _⟩
  rcases around with ⟨front, back, blankFront, blankBack, rfl⟩
  have areLegible : ∀ term ∈ terms, term.Legible exprText := fun term member =>
    ⟨(legible term member).1,
      fun expr isExpr => ((legible term member).2 expr isExpr).isArgument⟩
  have compiles : ∀ term ∈ terms, ∀ expr ∈ term.arguments, ∀ blanks : List Char,
      blanks.all Text.isBlank = true →
      ∃ bound, scope.compile (blanks ++ exprText expr) = .ok bound ∧
        bound.source = expr := by
    intro term member expr isExpr blanks blank
    have compiled := Scope.exists_compile_text ((legible term member).2 expr isExpr) blank
      (rfl : [].all Text.isBlank = true)
    rwa [List.append_nil] at compiled
  rcases exists_readEmissions areLegible compiles blankFront blankBack offset with
    ⟨replacement, isRead, met⟩
  have same := map_term_of_meets met
  have isBalanced : checkBalance branches .replacement []
      (replacement.map fun emission => (emission.symbol, emission.span)) = .ok () := by
    apply checkBalance_eq_ok_iff.mpr
    rw [← same, List.map_map] at balanced
    rw [List.map_map]
    exact balanced
  exact ⟨replacement, outcome_readBalanced isRead isBalanced, same⟩

theorem names_of_declarations_eq {left right : List PatternSymbol}
    {target : PatternSymbol} (sameLeft : left.map PatternSymbol.term = form.left)
    (sameTarget : target.term = form.target)
    (sameRight : right.map PatternSymbol.term = form.right) :
    (Production.declarations (left ++ target :: right)).map Prod.fst = form.names := by
  rw [Production.names_of_declarations, names, pattern, ← sameLeft,
    ← sameTarget, ← sameRight, ← List.map_cons, ← List.map_append, List.flatMap_map]
  rfl

theorem exists_outline (legible : form.Legible globals branches) :
    ∃ outline, Outline.ofText? form.text.toList = some outline ∧
      outline.Shows (form.probability.map numeralText) form.patternText
        (form.condition.map exprText) (rowText exprText form.replacement) := by
  have unmarkedLeft := Legible.unmarked_rowText? legible.left
  have unmarkedRight := Legible.unmarked_rowText? legible.right
  have probability : ∀ inside ∈ form.probability.map numeralText,
      Nested inside ∧ Arrowless inside := by
    rintro _ isInside
    rcases Option.map_eq_some_iff.mp isInside with ⟨value, isValue, rfl⟩
    have finite := legible.probability value isValue
    exact ⟨(isArgument_numeralText finite).nested,
      (unmarked_of_plain (not_mem_reserved_of_mem_numeralText finite)).arrowless⟩
  have condition : ∀ text ∈ form.condition.map exprText, Arrowless text := by
    rintro _ isText
    rcases Option.map_eq_some_iff.mp isText with ⟨expr, isExpr, rfl⟩
    exact (legible.condition expr isExpr).arrowless
  rw [text, String.toList_ofList]
  exact Outline.exists_ofText? (fun inside isInside => (probability inside isInside).1)
    (fun inside isInside => (probability inside isInside).2)
    (ContextOutline.arrowless_parts unmarkedLeft legible.unmarked_target unmarkedRight)
      condition
    (ContextOutline.colon_not_mem_parts
      unmarkedLeft legible.unmarked_target unmarkedRight)
    (fun _ => legible.splitProbability?_patternText _)

/-- Every rule of the grammar is understood: its text is read as a production with
exactly its parts, the names captured in the order of the pattern, and the expressions
bound to these names and those of the global parameters. -/
theorem exists_read_text (legible : form.Legible globals branches) :
    ∃ production, (Production.read globals branches form.text).outcome = .ok production ∧
      production.text = form.text ∧ production.form = form ∧
      production.captured = form.names ∧
      production.Bound globals branches ∧
      (Production.read globals branches form.text).letters = form.letters := by
  rcases exists_outline legible with ⟨outline, isOutline, shows⟩
  rcases exists_readProbability legible.probability shows.probability with
    ⟨probability, isProbability, sameProbability⟩
  rcases exists_readContext legible shows.context with
    ⟨left, target, right, isContext, sameLeft, sameTarget, sameRight⟩
  have names := names_of_declarations_eq sameLeft sameTarget sameRight
  have captured : Production.capture globals []
      (Production.declarations (left ++ target :: right)) = .ok form.names := by
    rcases List.nodup_append.mp legible.nodup with ⟨nodup, _, apart⟩
    rw [← names] at nodup apart ⊢
    exact Production.capture_of_nodup nodup fun name isName isGlobal =>
      apart name isName name isGlobal rfl
  have declared := Production.declare_of_nodup legible.nodup
  rcases exists_readCondition ⟨form.names, globals⟩ legible.condition shows.condition with
    ⟨condition, isCondition, sameCondition⟩
  rcases exists_readReplacement ⟨form.names, globals⟩ legible.replacement
    legible.replacement_balanced shows.replacement with
    ⟨replacement, isReplacement, sameReplacement⟩
  have isRead : (Production.read globals branches form.text).outcome =
      .ok ⟨form.text, probability, left, target, right, condition, replacement,
        form.names⟩ := by
    simp only [Production.read, Reading.outcome_bind, Reading.outcome_lift,
      Reading.outcome_pure, bind_eq_ok, isOutline]
    exact ⟨outline, rfl, probability, isProbability, (left, target, right),
      isContext, form.names, captured, _, declared, condition, isCondition, replacement,
      isReplacement, rfl⟩
  have isForm : Production.form
      ⟨form.text, probability, left, target, right, condition, replacement,
        form.names⟩ = form := by
    rw [Production.form, sameProbability, sameLeft, sameTarget, sameRight, sameCondition,
      sameReplacement]
  refine ⟨_, isRead, rfl, isForm, rfl, Production.bound_of_read isRead, ?_⟩
  rw [Production.letters_read isRead, letters, pattern, ← sameLeft,
    ← sameTarget, ← sameRight, ← sameReplacement, ← List.map_cons, ← List.map_append,
    List.map_map, List.map_map]
  rfl

/-- A rule with every part, in which a letter is a `P` and another one a minus. -/
def complete : RuleForm where
  probability := some 0.5
  left := [⟨'A', ["x"]⟩, ⟨'-', []⟩]
  target := ⟨'P', ["y", "z"]⟩
  right := [⟨'[', []⟩, ⟨'B', []⟩, ⟨']', []⟩]
  condition := some (.combine .greater (.parameter "x") (.negate (.parameter "g")))
  replacement :=
    [⟨'C', [.negate (.parameter "y"), .combine .multiply (.parameter "z") (.literal 2)]⟩]

theorem exists_read_text_complete :
    complete.text = "P(0.5) | A(x)- < P(y, z) > [B] : (x > -g) -> C(-y, (z * 2))" ∧
      complete.Legible ["g"] ⟨'[', ']'⟩ ∧
      ∃ production,
        (Production.read ["g"] ⟨'[', ']'⟩ complete.text).outcome = .ok production ∧
        production.text = complete.text ∧ production.form = complete ∧
        production.captured = ["x", "y", "z"] ∧ production.Bound ["g"] ⟨'[', ']'⟩ ∧
        (Production.read ["g"] ⟨'[', ']'⟩ complete.text).letters =
          ['A', '-', 'P', '[', 'B', ']', 'C'] := by
  have legible : complete.Legible ["g"] ⟨'[', ']'⟩ :=
    { probability := by decide +kernel
      pattern := by
        unfold Spelled
        decide +kernel
      nodup := by decide +kernel
      target_free := by decide
      left_free := by decide +kernel
      right_bare := by decide +kernel
      right_balanced := by decide
      condition := by decide +kernel
      replacement := by decide +kernel
      replacement_balanced := by decide }
  exact ⟨by decide +kernel, legible, exists_read_text legible⟩

end RuleForm

end LSystems
