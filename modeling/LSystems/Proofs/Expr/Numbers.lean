import LSystems.Expr.Scope
import LSystems.Proofs.Expr.Parse
import LSystems.Proofs.Expr.Scanning

/-!
# Expressions that are numbers

The text of a finite double, with blanks in front, is an expression in every scope, and
its value is the double. A minus is read as a sign, so that the sign of zero is kept as
well. Main statement: `exists_compile_floatText`.
-/

namespace LSystems

variable {value : Float}

/-! ## Tokens -/

namespace Token

variable (declared : List String)

theorem scans_floatText (finite : value.isFinite = true)
    (positive : Decimal.isNegative value = false) :
    Scans declared (floatText value).toList [.number value] := by
  rcases exists_row_of_floatText finite with ⟨row, writes, isText⟩
  have whole := Decimal.ofMagnitude_magnitude finite
  have scans := scans_row declared writes
  rw [positive] at whole isText
  rw [whole] at scans
  rwa [isText]

/-- The sign bit is written as a minus and comes back by a negation, also that of zero. -/
theorem exists_scans_floatText (finite : value.isFinite = true)
    (negative : Decimal.isNegative value = true) :
    ∃ magnitude, -magnitude = value ∧
      Scans declared (floatText value).toList
        [.operator .subtract, .number magnitude] := by
  rcases exists_row_of_floatText finite with ⟨row, writes, isText⟩
  have whole := Decimal.ofMagnitude_magnitude finite
  rw [negative] at whole isText
  rw [← Decimal.neg_ofMagnitude (Decimal.magnitude_lt_infinityBits finite)] at whole
  rw [isText]
  exact ⟨_, whole, (scans_row declared writes).behind_minus⟩

end Token

/-! ## Values -/

namespace Expr

theorem Derives.binary {row : List TokenKind} {expr : Expr}
    (derives : Derives .unary row expr) (tiers : Nat) :
    Derives (.binary tiers) row expr := by
  induction tiers with
  | zero => exact .single derives
  | succ tiers induction => exact .tighter induction

end Expr

namespace Scope

variable {scope : Scope} {text : List Char} {kinds : List TokenKind} {expr : Expr}

theorem parse_of_scans (scans : Token.Scans scope.names text kinds)
    (derives : Expr.Derives .unary kinds expr) : scope.parse text = .ok expr := by
  rcases scans.exists_scanFrom 0 with ⟨tokens, scanned, areKinds⟩
  exact Expr.parse_eq_ok_iff.mpr ⟨tokens, scanned, areKinds ▸ derives.binary _⟩

theorem compile_of_scans (scans : Token.Scans scope.names text kinds)
    (derives : Expr.Derives .unary kinds expr) :
    scope.compile text = scope.bind expr := by
  rw [compile, parse_of_scans scans derives]
  rfl

theorem exists_compile_floatText (scope : Scope) (finite : value.isFinite = true)
    {blanks : List Char} (blank : blanks.all Text.isBlank) :
    ∃ bound, scope.compile (blanks ++ (floatText value).toList) = .ok bound ∧
      bound.root = .literal value := by
  cases sign : Decimal.isNegative value with
  | false =>
      have scans := (Token.scans_floatText scope.names finite sign).behind_blanks blank
      exact ⟨_, compile_of_scans scans (.plain (.number value)), rfl⟩
  | true =>
      rcases Token.exists_scans_floatText scope.names finite sign with
        ⟨magnitude, rfl, scans⟩
      have scans := scans.behind_blanks blank
      exact ⟨_, compile_of_scans scans (.negate (.number magnitude)), rfl⟩

end Scope

end LSystems
