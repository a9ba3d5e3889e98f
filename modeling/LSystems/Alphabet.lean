import LSystems.Error
import LSystems.Text.Classes

/-!
# Alphabets

An alphabet numbers the letters of a system in the order in which they were first met.
It only grows, so a number once given stays. Reading a text logs the letters it meets,
also when it ends in an error, and the alphabet takes in the log.
-/

namespace LSystems

abbrev Symbol := Nat

structure BranchPair (α : Type) where
  opening : α
  closing : α
deriving DecidableEq, Repr

def BranchPair.contains {α : Type} [DecidableEq α] (branches : BranchPair α)
    (symbol : α) : Bool :=
  symbol = branches.opening || symbol = branches.closing

def reservedCharacters : List Char :=
  ['(', ')', ',', '<', '>', ':', '|']

def isLetterSymbol (character : Char) : Bool :=
  !Text.isBlank character && !reservedCharacters.contains character

structure Alphabet where
  letters : List Char
  symbol? : Char → Option Symbol
  agree : ∀ letter symbol, symbol? letter = some symbol ↔ letters[symbol]? = some letter

namespace Alphabet

def empty : Alphabet := ⟨[], fun _ => none, by simp⟩

/-- The letter's number, or the one it would get next. -/
def code (alphabet : Alphabet) (letter : Char) : Symbol :=
  (alphabet.symbol? letter).getD alphabet.letters.length

def letter? (alphabet : Alphabet) (symbol : Symbol) : Option Char :=
  alphabet.letters[symbol]?

def size (alphabet : Alphabet) : Nat :=
  alphabet.letters.length

theorem letter?_eq_some_iff (alphabet : Alphabet) (symbol : Symbol) (letter : Char) :
    alphabet.letter? symbol = some letter ↔ alphabet.symbol? letter = some symbol :=
  (alphabet.agree letter symbol).symm

private theorem agree_append (alphabet : Alphabet) {letter : Char}
    (isNew : alphabet.symbol? letter = none) (other : Char) (symbol : Symbol) :
    (if other = letter then some alphabet.letters.length else alphabet.symbol? other) =
        some symbol ↔
      (alphabet.letters ++ [letter])[symbol]? = some other := by
  have found_iff : (alphabet.letters ++ [letter])[symbol]? = some other ↔
      alphabet.symbol? other = some symbol ∨
        symbol = alphabet.letters.length ∧ other = letter := by
    rw [alphabet.agree, List.getElem?_append]
    split
    · next inside => simp [Nat.ne_of_lt inside]
    · next outside =>
        have behind := Nat.le_of_not_lt outside
        have isEnd : symbol - alphabet.letters.length = 0 ↔
            symbol = alphabet.letters.length :=
          Nat.sub_eq_zero_iff_le.trans
            ⟨fun before => Nat.le_antisymm before behind, Nat.le_of_eq⟩
        simp [List.getElem?_eq_none behind, List.getElem?_singleton, isEnd, eq_comm]
  rw [found_iff]
  split
  · next same => simp [same, isNew, eq_comm]
  · next different => simp [different]

def intern (alphabet : Alphabet) (letter : Char) : Alphabet :=
  match isNew : alphabet.symbol? letter with
  | some _ => alphabet
  | none =>
    { letters := alphabet.letters ++ [letter]
      symbol? := fun other =>
        if other = letter then some alphabet.letters.length else alphabet.symbol? other
      agree := alphabet.agree_append isNew }

def internAll (alphabet : Alphabet) (letters : List Char) : Alphabet :=
  letters.foldl intern alphabet

def ofBranches (opening closing : Char) : Alphabet :=
  (empty.intern opening).intern closing

example : (ofBranches '[' ']').letters = ['[', ']'] := rfl

def checkBranchSymbol (character : Char) : Except Error Unit :=
  if isLetterSymbol character then .ok ()
  else .error (.configuration (.unusableBranchSymbol character))

def branchLetters (opening closing : Char) : Except Error (BranchPair Char) := do
  checkBranchSymbol opening
  checkBranchSymbol closing
  if opening = closing then throw (.configuration .equalBranchSymbols)
  return ⟨opening, closing⟩

def codes (alphabet : Alphabet) (branches : BranchPair Char) : BranchPair Symbol :=
  ⟨alphabet.code branches.opening, alphabet.code branches.closing⟩

end Alphabet

/-! ## Readings -/

/-- What reading a text comes to, and the letters met on the way. -/
structure Reading (α : Type) where
  letters : List Char
  outcome : Except Error α

namespace Reading

protected def bind {α β : Type} (first : Reading α) (next : α → Reading β) : Reading β :=
  match first.outcome with
  | .error error => ⟨first.letters, .error error⟩
  | .ok result => ⟨first.letters ++ (next result).letters, (next result).outcome⟩

instance : Monad Reading where
  pure result := ⟨[], .ok result⟩
  bind := Reading.bind

def lift {α : Type} (outcome : Except Error α) : Reading α :=
  ⟨[], outcome⟩

def meet (letter : Char) : Reading Unit :=
  ⟨[letter], .ok ()⟩

end Reading

/-- The outcome of a reading, and the alphabet with the letters that it met. -/
def Alphabet.take {α : Type} (alphabet : Alphabet) (reading : Reading α) :
    Except Error α × Alphabet :=
  (reading.outcome, alphabet.internAll reading.letters)

def readLetters (offset : Nat) : List Char → Reading (List Char)
  | [] => pure []
  | character :: rest =>
    if Text.isBlank character then readLetters (offset + 1) rest
    else if reservedCharacters.contains character then
      .lift (.error (.unreadable (.unusableSymbol character) ⟨offset, 1⟩))
    else do
      Reading.meet character
      let rest ← readLetters (offset + 1) rest
      return character :: rest

example : (readLetters 0 "A B".toList).letters = ['A', 'B'] := by decide +kernel

end LSystems
