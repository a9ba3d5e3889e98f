import LSystems.Proofs.Expr.Written
import LSystems.Table.Basic

/-!
# Conditions as texts

Signatures hold conditions as texts. The text of an expression is read as this
expression again, so that no two expressions have one text and signatures tell
conditions apart. Main statement: `Expr.text_faithful`.
-/

namespace LSystems

namespace Expr

variable {known others : List String} {expr other : Expr}

theorem Legible.mono (legible : expr.Legible known) (more : known ⊆ others) :
    expr.Legible others := by
  induction expr with
  | literal value => exact legible
  | parameter name => exact ⟨legible.1, more legible.2⟩
  | negate operand induction => exact ⟨legible.1, induction legible.2⟩
  | combine operator left right onLeft onRight =>
      exact ⟨onLeft legible.1, onRight legible.2⟩

theorem Legible.parse_text (scope : Scope) (legible : expr.Legible scope.names) :
    scope.parse expr.text.toList = .ok expr :=
  Scope.parse_of_scans legible.scans legible.derives

/-- Expressions with one text are one expression: a scope with the names of both reads
both. -/
theorem Legible.eq_of_text_eq (legible : expr.Legible known)
    (alsoLegible : other.Legible others) (same : expr.text = other.text) :
    expr = other := by
  let scope : Scope := ⟨known, others⟩
  have read : scope.parse expr.text.toList = .ok expr :=
    (legible.mono (List.subset_append_left known others)).parse_text scope
  have alsoRead : scope.parse other.text.toList = .ok other :=
    (alsoLegible.mono (List.subset_append_right known others)).parse_text scope
  rw [same] at read
  exact Except.ok.inj (read.symm.trans alsoRead)

end Expr

namespace Production

def LegibleCondition (production : Production) : Prop :=
  ∀ condition ∈ production.condition, ∃ known, condition.source.Legible known

variable {first second : Production}

theorem signature_condition_eq_iff (code : Char → Symbol) (branches : BranchPair Symbol)
    (legible : first.LegibleCondition) (alsoLegible : second.LegibleCondition) :
    (first.signature code branches).condition =
      (second.signature code branches).condition ↔
      first.condition.map BoundExpr.source = second.condition.map BoundExpr.source := by
  change first.condition.map (·.source.text) = second.condition.map (·.source.text) ↔ _
  constructor
  · intro same
    cases isFirst : first.condition with
    | none =>
        rw [isFirst, Option.map_none, eq_comm, Option.map_eq_none_iff] at same
        rw [same]
    | some condition =>
        rw [isFirst, Option.map_some, eq_comm, Option.map_eq_some_iff] at same
        rcases same with ⟨another, isSecond, sameText⟩
        rcases legible condition isFirst with ⟨known, legible⟩
        rcases alsoLegible another isSecond with ⟨others, alsoLegible⟩
        rw [isSecond, Option.map_some, Option.map_some,
          alsoLegible.eq_of_text_eq legible sameText]
  · intro same
    have sameTexts := congrArg (Option.map Expr.text) same
    rwa [Option.map_map, Option.map_map] at sameTexts

end Production

namespace Expr

/-- The text of an expression without signed literals and double negations is read as
this expression in every scope that declares its names. So two such expressions have one
text only if they are one expression, and of two productions with such conditions the
signatures agree about the condition exactly if the conditions are one expression. -/
theorem text_faithful :
    (∀ (scope : Scope) (expr : Expr), expr.Legible scope.names →
      scope.parse expr.text.toList = .ok expr) ∧
    (∀ (known others : List String) (expr other : Expr),
      expr.Legible known → other.Legible others → expr.text = other.text → expr = other) ∧
    ∀ (code : Char → Symbol) (branches : BranchPair Symbol) (first second : Production),
      first.LegibleCondition → second.LegibleCondition →
      ((first.signature code branches).condition =
        (second.signature code branches).condition ↔
        first.condition.map BoundExpr.source =
        second.condition.map BoundExpr.source) := by
  refine ⟨fun scope _ => Legible.parse_text scope,
    fun _ _ _ _ => Legible.eq_of_text_eq, ?_⟩
  exact fun code branches _ _ => Production.signature_condition_eq_iff code branches

def signed : Expr :=
  .combine .greaterEqual (.negate (.literal 0.25))
    (.combine .power (.parameter "x_1")
      (.negate (.combine .subtract (.negate (.parameter "y")) (.literal 1e21))))

def guarded (condition : Expr) : Production where
  text := "A(x_1)"
  probability := none
  left := []
  target := ⟨'A', ["x_1"], ⟨0, 6⟩⟩
  right := []
  condition := some ⟨condition, .literal 0⟩
  replacement := []
  captured := ["x_1"]

theorem text_faithful_signed :
    signed.Legible ["x_1", "y"] ∧
      signed.text = "(-0.25 >= (x_1 ^ -(-y - 1000000000000000000000)))" ∧
      Scope.parse ⟨["x_1"], ["y"]⟩ signed.text.toList = .ok signed ∧
      signed.text ≠ signed.negate.text ∧
      ((guarded signed).signature Char.toNat ⟨91, 93⟩).condition ≠
        ((guarded signed.negate).signature Char.toNat ⟨91, 93⟩).condition := by
  have legible : signed.Legible ["x_1", "y"] := by decide +kernel
  have alsoLegible : signed.negate.Legible ["x_1", "y"] := by decide +kernel
  rcases text_faithful with ⟨reads, faithful, tells⟩
  refine ⟨legible, by decide +kernel, reads ⟨["x_1"], ["y"]⟩ signed legible, ?_, ?_⟩
  · intro same
    exact nomatch faithful _ _ _ _ legible alsoLegible same
  · intro same
    have isLegible : (guarded signed).LegibleCondition := by
      rintro _ ⟨⟩
      exact ⟨_, legible⟩
    have alsoIsLegible : (guarded signed.negate).LegibleCondition := by
      rintro _ ⟨⟩
      exact ⟨_, alsoLegible⟩
    exact nomatch (tells _ _ _ _ isLegible alsoIsLegible).mp same

end Expr

end LSystems
