import LSystems.Proofs.Production.ErrorPlaces

/-!
# Errors of readers

Readers of texts end in errors about texts only, and a table adds errors about rules
that do not go together. Main statements: `Production.errors_read` and
`Alphabet.errors_compileTable`.
-/

namespace LSystems

namespace Error

/-- The error is about a text that could not be read. -/
def IsReading : Error → Prop
  | unreadable _ _ | internal _ _ => True
  | _ => False

/-- The error is about a rule that could not be read, or about rules that do not go
together. -/
def IsOfRules : Error → Prop
  | unreadable _ _ | internal _ _ | probability _ _ | conflict _ _ => True
  | _ => False

theorem IsReading.isOfRules {error : Error} (reading : error.IsReading) :
    error.IsOfRules := by
  cases error with
  | unreadable => trivial
  | internal => trivial
  | _ => contradiction

theorem PointsInto.isReading {error : Error} {whole : Fragment}
    (points : error.PointsInto whole) :
    error.IsReading := by
  cases points with
  | plain ends => cases ends <;> trivial
  | quoting => trivial

theorem IsReading.inRule {error : Error} (reading : error.IsReading) (index : Nat) :
    (error.inRule index).IsReading := by
  cases error with
  | unreadable => trivial
  | internal => trivial
  | _ => contradiction

end Error

abbrev ErrorsOfReading {α : Type} (outcome : Except Error α) : Prop :=
  ErrorsAre Error.IsReading outcome

/-! ## Rules -/

theorem errors_readLetters (offset : Nat) (text : List Char) :
    ErrorsOfReading (readLetters offset text).outcome := by
  fun_induction readLetters offset text with
  | case1 => exact .ok _
  | case2 _ _ _ _ induction => exact induction
  | case3 => exact .error trivial
  | case4 _ _ _ _ _ induction =>
      simp only [Reading.outcome_bind]
      exact .bind (.ok _) fun _ _ => .bind induction fun _ _ => .ok _

namespace Production

theorem errors_read (globals : List String) (branches : BranchPair Char) (text : String) :
    ErrorsOfReading (read globals branches text).outcome :=
  (pointsInto_read ..).mono fun _ => Error.PointsInto.isReading

theorem errors_readAll (globals : List String) (branches : BranchPair Char) (index : Nat)
    (texts : List String) :
    ErrorsOfReading (readAll globals branches index texts).outcome := by
  induction texts generalizing index with
  | nil => exact .ok _
  | cons text rest induction =>
      simp only [readAll, Reading.outcome_bind]
      exact .bind (.mapError (errors_read ..) fun _ reading => reading.inRule index)
        fun _ _ =>
        .bind (induction _) fun _ _ => .ok _

end Production

/-! ## Tables and words -/

theorem SignatureClass.errors_check (tolerance : Float) (group : SignatureClass) :
    ErrorsAre Error.IsOfRules (check tolerance group) := by
  unfold check
  dsimp only
  split
  · split
    · exact .throw trivial
    · exact .ok _
  · split
    · exact .throw trivial
    · split
      · exact .throw trivial
      · split
        · exact .throw trivial
        · exact .ok _

theorem RuleTable.errors_ofProductions (settings : TableSettings) (globals : List String)
    (code : Char → Symbol) (productions : List Production) :
    ErrorsAre Error.IsOfRules (ofProductions settings globals code productions) :=
  .bind (.forM (SignatureClass.errors_check _) _) fun _ _ => .ok _

namespace Alphabet

theorem errors_compileTable (alphabet : Alphabet) (branches : BranchPair Char)
    (ignored : SymbolSet) (tolerance : Float) (globals texts : List String) :
    ErrorsAre Error.IsOfRules
      (alphabet.compileTable branches ignored tolerance globals texts).1 :=
  .bind ((Production.errors_readAll ..).mono fun _ => Error.IsReading.isOfRules)
    fun _ _ =>
    RuleTable.errors_ofProductions ..

theorem errors_parseInitial (alphabet : Alphabet) (branches : BranchPair Char)
    (text : String) :
    ErrorsOfReading (alphabet.parseInitial branches text).1 :=
  .map ((pointsInto_readBalanced ..).mono fun _ => Error.PointsInto.isReading) _

end Alphabet

end LSystems
