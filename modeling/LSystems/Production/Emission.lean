import LSystems.Brackets
import LSystems.Expr.Scope
import LSystems.Production.Fragment
import LSystems.Word

/-!
# Replacements and words to start from

A replacement is a row of symbols whose arguments are expressions; a word to start from
is one whose expressions have no parameters.
-/

namespace LSystems

structure Emission (α : Type) where
  symbol : α
  parameters : List BoundExpr
  span : Span

namespace Emission

def rename {α β : Type} (name : α → β) (emission : Emission α) : Emission β :=
  { emission with symbol := name emission.symbol }

def cell (emission : Emission Symbol) (captured globals : List Float) : Cell :=
  ⟨emission.symbol, emission.parameters.map (·.evaluate captured globals)⟩

def ofPiece (scope : Scope) (piece : Piece) : Except Error (Emission Char) := do
  let arguments := (piece.arguments.map (Fragment.arguments true)).getD []
  let parameters ← arguments.mapM fun argument =>
    match scope.compile argument.text with
    | .ok expr => .ok expr
    | .error error => .error (error.shift argument.offset)
  return ⟨piece.letter, parameters, piece.span⟩

end Emission

def readEmissions (scope : Scope) (fragment : Fragment) :
    Reading (List (Emission Char)) :=
  readPieces (Emission.ofPiece scope) (cut fragment.offset fragment.text)

def readBalanced (scope : Scope) (branches : BranchPair Char) (place : Section)
    (fragment : Fragment) : Reading (List (Emission Char)) := do
  let emissions ← readEmissions scope fragment
  Reading.lift <|
    checkBalance branches place []
      (emissions.map fun emission => (emission.symbol, emission.span))
  return emissions

/-! ## Words to start from -/

def Word.ofEmissions (code : Char → Symbol) (emissions : List (Emission Char)) : Word :=
  ofCells (emissions.map fun emission => (emission.rename code).cell [] [])

def Alphabet.readWord (alphabet : Alphabet) (reading : Reading (List (Emission Char))) :
    Except Error Word × Alphabet :=
  let (outcome, alphabet) := alphabet.take reading
  (outcome.map (Word.ofEmissions alphabet.code), alphabet)

/-- Reads a word in which branches need not be balanced. -/
def Alphabet.parseLoose (alphabet : Alphabet) (text : String) :
    Except Error Word × Alphabet :=
  alphabet.readWord (readEmissions Scope.empty ⟨0, text.toList⟩)

def Alphabet.parseInitial (alphabet : Alphabet) (branches : BranchPair Char)
    (text : String) : Except Error Word × Alphabet :=
  alphabet.readWord (readBalanced Scope.empty branches .initialWord ⟨0, text.toList⟩)

end LSystems
