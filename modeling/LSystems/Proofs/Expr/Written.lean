import LSystems.Proofs.Expr.Meaning
import LSystems.Proofs.Expr.Numbers

/-!
# Expressions as text

The text of an expression has as its tokens what the expression is made of, and these
tokens are the expression again, in every scope that declares its names. Main statement:
`Scope.exists_compile_text`.
-/

namespace LSystems

namespace Token

theorem stops_blanks {blanks rest : List Char} (blank : blanks.all Text.isBlank = true)
    (stops : Stops rest) : Stops (blanks ++ rest) := by
  cases blanks with
  | nil => exact stops
  | cons head tail =>
      rw [List.all_cons, Bool.and_eq_true] at blank
      rintro _ ⟨⟩
      constructor
      · by_contra inside
        rw [Bool.not_eq_false] at inside
        exact nomatch blank.1.symm.trans (isBlank_of_inNumber inside)
      · by_contra continues
        rw [Bool.not_eq_false] at continues
        exact nomatch blank.1.symm.trans (Text.isBlank_of_continuesName continues)

end Token

namespace Expr

def isNegation : Expr → Bool
  | negate _ => true
  | _ => false

/-- The expression is read as it is written: its names are names among the known ones,
its literals are finite and have no sign, and no negation is negated. -/
def Legible (known : List String) : Expr → Prop
  | literal value => value.isFinite = true ∧ Decimal.isNegative value = false
  | parameter name => Text.isName name.toList = true ∧ name ∈ known
  | negate operand => operand.isNegation = false ∧ operand.Legible known
  | combine _ left right => left.Legible known ∧ right.Legible known

instance decidableLegible (known : List String) :
    (expr : Expr) → Decidable (expr.Legible known)
  | literal value =>
    inferInstanceAs (Decidable (value.isFinite = true ∧ Decimal.isNegative value = false))
  | parameter name =>
      inferInstanceAs (Decidable (Text.isName name.toList = true ∧ name ∈ known))
  | negate operand =>
    have := decidableLegible known operand
    inferInstanceAs (Decidable (operand.isNegation = false ∧ operand.Legible known))
  | combine _ left right =>
    have := decidableLegible known left
    have := decidableLegible known right
    inferInstanceAs (Decidable (left.Legible known ∧ right.Legible known))

def kinds : Expr → List TokenKind
  | literal value => [.number value]
  | parameter name => [.name name]
  | negate operand => .operator .subtract :: operand.kinds
  | combine operator left right =>
    .opening :: (left.kinds ++ .operator operator :: (right.kinds ++ [.closing]))

theorem toList_text_negate (operand : Expr) :
    (negate operand).text.toList = '-' :: operand.text.toList := by
  simp [text]

theorem toList_text_combine (operator : Operator) (left right : Expr) :
    (combine operator left right).text.toList =
      '(' :: (left.text.toList ++ ' ' :: (operator.symbol.toList ++ ' ' ::
        (right.text.toList ++ [')']))) := by
  simp [text]

variable {known : List String} {expr : Expr}

theorem Legible.scans (legible : expr.Legible known) :
    Token.Scans known expr.text.toList expr.kinds := by
  induction expr with
  | literal value => exact Token.scans_floatText known legible.1 legible.2
  | parameter name => exact Token.scans_name legible.1 legible.2
  | negate operand induction =>
      rw [toList_text_negate]
      exact (induction legible.2).behind_minus
  | combine operator left right onLeft onRight =>
      have blank : [' '].all Text.isBlank = true := by decide
      have closed := (onRight legible.2).append (Token.scans_closing known)
        fun rest _ => Token.stops_closing rest
      have signed := (closed.behind_blanks blank).behind_symbol operator
      have joined := (onLeft legible.1).append (signed.behind_blanks blank)
        fun rest _ => Token.stops_blank _
      rw [toList_text_combine]
      exact joined.behind_opening

/-! ## Trees -/

variable {row : List TokenKind}

theorem Derives.raise {bound : Nat} (derives : Derives (.binary bound) row expr)
    {higher : Nat} (notBelow : bound ≤ higher) : Derives (.binary higher) row expr := by
  induction notBelow with
  | refl => exact derives
  | step _ induction => exact .tighter induction

theorem Derives.primary (derives : Derives .unary row expr)
    (notNegation : expr.isNegation = false) :
    Derives .primary row expr := by
  cases derives with
  | plain derives => exact derives
  | negate derives => contradiction

theorem Legible.derives (legible : expr.Legible known) :
    Derives .unary expr.kinds expr := by
  induction expr with
  | literal value => exact .plain (.number value)
  | parameter name => exact .plain (.name name)
  | negate operand induction => exact .negate ((induction legible.2).primary legible.1)
  | combine operator left right onLeft onRight =>
      have joined := Derives.combine (Operator.mem_tiers operator)
        ((onLeft legible.1).binary (operator.level + 1))
          ((onRight legible.2).binary operator.level)
      have grouped := Derives.group (joined.raise operator.level_lt)
      rw [List.append_assoc, List.cons_append] at grouped
      exact .plain grouped

theorem Legible.names_known (legible : expr.Legible known) :
    ∀ name ∈ expr.names, name ∈ known := by
  induction expr with
  | literal value => exact nofun
  | parameter name => exact List.forall_mem_singleton.mpr legible.2
  | negate operand induction => exact induction legible.2
  | combine operator left right onLeft onRight =>
      intro name member
      rcases mem_names_combine.mp member with member | member
      · exact onLeft legible.1 name member
      · exact onRight legible.2 name member

end Expr

namespace Scope

variable {scope : Scope} {expr : Expr}

theorem exists_compile_text (legible : expr.Legible scope.names) {front back : List Char}
    (blankFront : front.all Text.isBlank = true)
    (blankBack : back.all Text.isBlank = true) :
    ∃ bound, scope.compile (front ++ (expr.text.toList ++ back)) = .ok bound ∧
      bound.source = expr := by
  have trailing : Token.Scans scope.names back [] := by
    have scans := (Token.scans_nil scope.names).behind_blanks blankBack
    rwa [List.append_nil] at scans
  have scans := legible.scans.append trailing fun _ => Token.stops_blanks blankBack
  rw [List.append_nil] at scans
  rcases exists_bind_iff.mpr legible.names_known with ⟨bound, isBound⟩
  refine ⟨bound, ?_, (bind_spec isBound).1⟩
  rw [compile_of_scans (scans.behind_blanks blankFront) legible.derives, isBound]

end Scope

end LSystems
