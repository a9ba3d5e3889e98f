import LSystems.Alphabet
import LSystems.Decimal.Shortest

/-!
# Words

A word is a row of symbols with parameters. The parameters of all symbols lie behind one
another in one block, and a span tells where those of each symbol are.
-/

namespace LSystems

def Span.part? {α : Type} (span : Span) (values : Array α) : Option (List α) :=
  if span.stop ≤ values.size then some (values.extract span.offset span.stop).toList
  else none

structure Cell where
  symbol : Symbol
  parameters : List Float

structure Word where
  symbols : Array Symbol
  /-- Where in the block the parameters of each symbol lie. -/
  places : Array Span
  block : Array Float

namespace Word

def empty : Word := ⟨#[], #[], #[]⟩

def size (word : Word) : Nat :=
  word.symbols.size

def push (word : Word) (cell : Cell) : Word where
  symbols := word.symbols.push cell.symbol
  places := word.places.push ⟨word.block.size, cell.parameters.length⟩
  block := word.block ++ cell.parameters

def ofCells (cells : List Cell) : Word :=
  cells.foldl push empty

def ofSymbols (symbols : List Symbol) : Word where
  symbols := symbols.toArray
  places := (symbols.map fun _ => Span.zero).toArray
  block := #[]

def ofRows (symbols : List Symbol) (rows : List (List Float)) : Except Error Word :=
  if symbols.length = rows.length then
    .ok (ofCells (List.zipWith Cell.mk symbols rows))
  else
    .error (.malformedWord (.lengths symbols.length rows.length))

def parametersIn (word : Word) (place : Span) : List Float :=
  (word.block.extract place.offset place.stop).toList

def parameters (word : Word) (position : Nat) : List Float :=
  match word.places[position]? with
  | some place => word.parametersIn place
  | none => []

def parameters? (word : Word) (position : Nat) : Option (List Float) := do
  let place ← word.places[position]?
  place.part? word.block

def arity (word : Word) (position : Nat) : Nat :=
  (word.places[position]?.map Span.length).getD 0

def cells (word : Word) : List Cell :=
  List.zipWith (fun symbol place => ⟨symbol, word.parametersIn place⟩)
    word.symbols.toList word.places.toList

/-- Equality of all three arrays, with doubles compared as numbers. -/
def same (left right : Word) : Bool :=
  left.symbols == right.symbols && left.places == right.places &&
    left.block == right.block

def cellText (alphabet : Alphabet) (cell : Cell) : List Char :=
  let letter := (alphabet.letter? cell.symbol).getD '?'
  if cell.parameters.isEmpty then [letter]
  else letter :: '(' :: (", ".intercalate (cell.parameters.map floatText)).toList ++ [')']

def text (alphabet : Alphabet) (word : Word) : String :=
  String.ofList (word.cells.flatMap (cellText alphabet))

/-- Places follow one another without gaps from `start` up to `stop`. -/
def Contiguous (start stop : Nat) : List Span → Prop
  | [] => start = stop
  | head :: tail => head.offset = start ∧ Contiguous head.stop stop tail

/-- Every symbol has a place, and the places follow one another through the whole block.
-/
def Compact (word : Word) : Prop :=
  word.places.size = word.symbols.size ∧ Contiguous 0 word.block.size word.places.toList

end Word

/-! ## Sets of symbols -/

structure SymbolSet where
  members : List Symbol

namespace SymbolSet

def contains (set : SymbolSet) (symbol : Symbol) : Bool :=
  set.members.contains symbol

def isEmpty (set : SymbolSet) : Bool :=
  set.members.isEmpty

def empty : SymbolSet := ⟨[]⟩

end SymbolSet

end LSystems
