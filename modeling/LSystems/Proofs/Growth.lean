import LSystems.Proofs.Production.LettersMet

/-!
# Growing alphabets

Whatever is asked of an alphabet, it numbers its letters without gaps, and it only
grows: the letters that it gets come behind those that it has, so that a number once
given stays. They are characters of the text that is read, and they may name symbols,
also if the reading ends in an error. Main statement: `Alphabet.dense_and_extends`.
-/

namespace LSystems

/-! ## Requests -/

/-- A request that may add letters to an alphabet. -/
inductive Request
  | letter (character : Char)
  | brackets (opening closing : Char)
  | row (text : String)
  | initialWord (branches : BranchPair Char) (text : String)
  | rule (globals : List String) (branches : BranchPair Char) (text : String)
  | table (branches : BranchPair Char) (ignored : SymbolSet) (tolerance : Float)
      (globals texts : List String)

namespace Request

def after (alphabet : Alphabet) : Request → Alphabet
  | letter character => alphabet.intern character
  | brackets opening closing =>
    match Alphabet.branchLetters opening closing with
    | .ok branches => alphabet.internAll [branches.opening, branches.closing]
    | .error _ => alphabet
  | row text => (alphabet.take (readLetters 0 text.toList)).2
  | initialWord branches text => (alphabet.parseInitial branches text).2
  | rule globals branches text =>
      (alphabet.take (Production.read globals branches text)).2
  | table branches ignored tolerance globals texts =>
    (alphabet.compileTable branches ignored tolerance globals texts).2

def given : Request → List Char
  | letter character => [character]
  | brackets opening closing => [opening, closing]
  | row text | initialWord _ text | rule _ _ text => text.toList
  | table _ _ _ _ texts => texts.flatMap String.toList

/-- Whether the characters are checked before they are taken in. A single letter is not.
-/
def isChecked : Request → Bool
  | letter _ => false
  | _ => true

theorem exists_internAll (request : Request) :
    ∃ letters,
      (∀ letter ∈ letters, letter ∈ request.given ∧
        (request.isChecked = true → isLetterSymbol letter = true)) ∧
      ∀ alphabet, request.after alphabet = alphabet.internAll letters := by
  have ofReading {α : Type} {text : List Char} {reading : Reading α}
      (drawn : reading.DrawnFrom text) {isChecked : Prop} : ∀ letter ∈ reading.letters,
        letter ∈ text ∧ (isChecked → isLetterSymbol letter = true) :=
    fun letter member => (drawn letter member).imp_right fun usable _ => usable
  cases request with
  | letter character => exact ⟨[character], fun _ member => ⟨member, nofun⟩, fun _ => rfl⟩
  | brackets opening closing =>
      cases areBranches : Alphabet.branchLetters opening closing with
      | error fault => exact ⟨[], nofun, fun _ => by simp only [after, areBranches]; rfl⟩
      | ok branches =>
          rcases Alphabet.of_branchLetters areBranches with ⟨first, second, rfl⟩
          refine ⟨[opening, closing], fun letter member => ⟨member, fun _ => ?_⟩,
            fun _ => ?_⟩
          · rcases List.mem_pair.mp member with rfl | rfl
            · exact first
            · exact second
          · simp only [after, areBranches]
  | row text => exact ⟨_, ofReading (drawnFrom_readLetters 0 text.toList), fun _ => rfl⟩
  | initialWord branches text =>
      have drawn := drawnFrom_readBalanced Scope.empty branches .initialWord
        (.refl ⟨0, text.toList⟩)
      exact ⟨_, ofReading drawn, fun _ => rfl⟩
  | rule globals branches text =>
      exact ⟨_, ofReading (Production.drawnFrom_read globals branches text), fun _ => rfl⟩
  | table branches ignored tolerance globals texts =>
      exact ⟨_, ofReading (Production.drawnFrom_readAll globals branches 0 texts),
        fun _ => rfl⟩

end Request

/-! ## Alphabets -/

namespace Alphabet

variable {alphabet middle grown : Alphabet} {letter : Char}

/-- The letters are numbered without gaps, and letters and numbers determine each other.
-/
structure Dense (alphabet : Alphabet) : Prop where
  symbol?_iff : ∀ letter symbol,
    alphabet.symbol? letter = some symbol ↔ alphabet.letter? symbol = some letter
  numbers : ∀ symbol, (∃ letter, alphabet.symbol? letter = some symbol) ↔
    symbol < alphabet.size

/-- The letters of one alphabet come first in the other, and their numbers are the same
there. -/
structure Extends (alphabet grown : Alphabet) : Prop where
  isPrefix : alphabet.letters <+: grown.letters
  keeps : ∀ letter symbol, alphabet.symbol? letter = some symbol →
    grown.symbol? letter = some symbol

theorem dense (alphabet : Alphabet) : alphabet.Dense := by
  refine ⟨fun letter symbol => (alphabet.letter?_eq_some_iff symbol letter).symm,
    fun symbol => ?_⟩
  simp only [← letter?_eq_some_iff]
  constructor
  · rintro ⟨letter, found⟩
    exact (List.getElem?_eq_some_iff.mp found).1
  · intro inside
    exact ⟨alphabet.letters[symbol], List.getElem?_eq_getElem inside⟩

theorem extends_internAll (alphabet : Alphabet) (letters : List Char) :
    alphabet.Extends (alphabet.internAll letters) := by
  refine ⟨isPrefix_internAll alphabet letters, fun letter symbol found => ?_⟩
  rw [← letter?_eq_some_iff] at found ⊢
  exact letter?_internAll found letters

theorem extends_afterAll (start : Alphabet) (requests : List Request) :
    start.Extends (requests.foldl Request.after start) := by
  induction requests generalizing start with
  | nil => exact ⟨List.prefix_rfl, fun _ _ found => found⟩
  | cons request rest induction =>
      rcases request.exists_internAll with ⟨letters, _, isAfter⟩
      have first := start.extends_internAll letters
      have further := induction (request.after start)
      rw [List.foldl_cons]
      rw [isAfter] at further ⊢
      exact ⟨first.isPrefix.trans further.isPrefix,
        fun letter symbol found =>
          further.keeps letter symbol (first.keeps letter symbol found)⟩

/-- After any requests an alphabet is dense, and whatever is asked of it next, it only
grows: by letters that the request is given, and that may name symbols if it checks
them. -/
theorem dense_and_extends (start : Alphabet) (requests : List Request) :
    let alphabet := requests.foldl Request.after start
    start.Extends alphabet ∧ alphabet.Dense ∧
      ∀ request : Request, alphabet.Extends (request.after alphabet) ∧
        ∀ letter ∈ (request.after alphabet).letters, letter ∉ alphabet.letters →
          letter ∈ request.given ∧
            (request.isChecked = true →
              Text.isBlank letter = false ∧ letter ∉ reservedCharacters) := by
  intro alphabet
  refine ⟨extends_afterAll start requests, alphabet.dense, fun request => ?_⟩
  rcases request.exists_internAll with ⟨letters, areGiven, isAfter⟩
  rw [isAfter]
  refine ⟨alphabet.extends_internAll letters, fun letter member isNew => ?_⟩
  rcases mem_or_mem_of_mem_internAll member with known | isMet
  · contradiction
  · rcases areGiven letter isMet with ⟨isGiven, usable⟩
    refine ⟨isGiven, fun checked => ?_⟩
    rcases isLetterSymbol_iff.mp (usable checked) with ⟨notBlank, faultless⟩
    exact ⟨notBlank, letterFault?_eq_none_iff.mp faultless⟩

set_option maxRecDepth 100000 in
private theorem letters_after_unreadable :
    (Request.after (ofBranches '[' ']') (.rule [] ⟨'[', ']'⟩ "A -> B(1)C(x)")).letters =
      ['[', ']', 'A', 'B'] := by
  decide +kernel

/-- A rule that cannot be read to its end adds the letters in front of the fault. -/
theorem dense_and_extends_unreadable :
    let start := ofBranches '[' ']'
    let request : Request := .rule [] ⟨'[', ']'⟩ "A -> B(1)C(x)"
    (request.after start).letters = ['[', ']', 'A', 'B'] ∧
    start.Extends (request.after start) ∧
      'B' ∈ request.given ∧ Text.isBlank 'B' = false ∧ 'B' ∉ reservedCharacters := by
  intro start request
  have added : (request.after start).letters = ['[', ']', 'A', 'B'] :=
    letters_after_unreadable
  rcases (dense_and_extends start []).2.2 request with ⟨isGrown, areNew⟩
  have isThere : 'B' ∈ (request.after start).letters := by
    rw [added]
    decide
  rcases areNew 'B' isThere (by decide) with ⟨isGiven, usable⟩
  exact ⟨added, isGrown, isGiven, usable rfl⟩

end Alphabet

end LSystems
