import LSystems.Alphabet
import LSystems.Proofs.Outcomes

/-!
# Alphabets

An alphabet keeps the letters that it has, and no two letters have one number.
-/

namespace LSystems.Alphabet

variable {alphabet : Alphabet} {letter : Char}

theorem mem_letters_iff : letter ∈ alphabet.letters ↔
    ∃ symbol, alphabet.symbol? letter = some symbol := by
  simp only [alphabet.agree, List.mem_iff_getElem?]

theorem symbol?_eq_none_iff : alphabet.symbol? letter = none ↔
    letter ∉ alphabet.letters := by
  rw [mem_letters_iff, ← Option.isSome_iff_exists, Option.not_isSome_iff_eq_none]

theorem letters_intern (alphabet : Alphabet) (letter : Char) :
    (alphabet.intern letter).letters =
      if letter ∈ alphabet.letters then alphabet.letters
      else alphabet.letters ++ [letter] := by
  rw [intern]
  split
  · next found => rw [if_pos (mem_letters_iff.mpr ⟨_, found⟩)]
  · next isNew => rw [if_neg (symbol?_eq_none_iff.mp isNew)]

theorem intern_of_mem (member : letter ∈ alphabet.letters) :
    alphabet.intern letter = alphabet := by
  rw [intern]
  split
  · rfl
  · next isNew => exact absurd member (symbol?_eq_none_iff.mp isNew)

theorem mem_intern (next : Char) (member : letter ∈ alphabet.letters) :
    letter ∈ (alphabet.intern next).letters := by
  rw [letters_intern]
  split
  · exact member
  · exact List.mem_append_left _ member

theorem mem_intern_self (alphabet : Alphabet) (letter : Char) :
    letter ∈ (alphabet.intern letter).letters := by
  rw [letters_intern]
  split
  · assumption
  · exact List.mem_append_right _ (List.mem_singleton_self letter)

theorem mem_internAll {letters : List Char} (member : letter ∈ alphabet.letters) :
    letter ∈ (alphabet.internAll letters).letters :=
  List.foldlRecOn (motive := fun grown : Alphabet => letter ∈ grown.letters)
    letters _ member
    fun _ known next _ => mem_intern next known

theorem mem_internAll_self {letters : List Char} (member : letter ∈ letters) :
    letter ∈ (alphabet.internAll letters).letters := by
  induction letters generalizing alphabet with
  | nil => contradiction
  | cons head rest induction =>
      rw [internAll, List.foldl_cons]
      rcases List.mem_cons.mp member with rfl | member
      · exact mem_internAll (mem_intern_self ..)
      · exact induction member

theorem mem_ofBranches (opening closing : Char) :
    opening ∈ (ofBranches opening closing).letters ∧
      closing ∈ (ofBranches opening closing).letters :=
  ⟨mem_intern closing (mem_intern_self ..), mem_intern_self ..⟩

theorem checkBranchSymbol_eq_ok_iff :
    checkBranchSymbol letter = .ok () ↔ isLetterSymbol letter = true := by
  unfold checkBranchSymbol
  split <;> simp [*]

theorem of_branchLetters {opening closing : Char} {branches : BranchPair Char}
    (done : branchLetters opening closing = .ok branches) :
    isLetterSymbol opening = true ∧ isLetterSymbol closing = true ∧
      branches = ⟨opening, closing⟩ := by
  simp only [branchLetters, bind_eq_ok] at done
  rcases done with ⟨_, first, _, second, rest⟩
  refine ⟨checkBranchSymbol_eq_ok_iff.mp first, checkBranchSymbol_eq_ok_iff.mp second, ?_⟩
  split at rest
  · contradiction
  · exact (pure_eq_ok.mp rest).symm

theorem letter?_code (known : letter ∈ alphabet.letters) :
    alphabet.letter? (alphabet.code letter) = some letter := by
  rcases mem_letters_iff.mp known with ⟨symbol, found⟩
  rw [code, found, letter?_eq_some_iff]
  exact found

theorem code_of_letter? {symbol : Symbol}
    (found : alphabet.letter? symbol = some letter) :
    alphabet.code letter = symbol := by
  rw [code, (letter?_eq_some_iff ..).mp found]
  rfl

theorem mem_of_letter? {symbol : Symbol} (found : alphabet.letter? symbol = some letter) :
    letter ∈ alphabet.letters :=
  List.mem_of_getElem? found

theorem eq_of_code_eq {other : Char} (member : letter ∈ alphabet.letters)
    (same : alphabet.code other = alphabet.code letter) : other = letter := by
  have found := letter?_code member
  by_cases alsoMember : other ∈ alphabet.letters
  · rw [← same, letter?_code alsoMember] at found
    exact Option.some.inj found
  · -- The number that a letter would get next lies behind all that have been given.
    rw [← same, code, symbol?_eq_none_iff.mpr alsoMember] at found
    exact absurd (List.getElem?_eq_some_iff.mp found).1 (Nat.lt_irrefl _)

theorem code_eq_iff {other : Char} (known : letter ∈ alphabet.letters) :
    alphabet.code letter = alphabet.code other ↔ letter = other := by
  constructor
  · intro same
    exact (eq_of_code_eq known same.symm).symm
  · exact congrArg _

theorem isPrefix_internAll (alphabet : Alphabet) (letters : List Char) :
    alphabet.letters <+: (alphabet.internAll letters).letters := by
  refine List.foldlRecOn
    (motive := fun grown : Alphabet => alphabet.letters <+: grown.letters)
    letters _ List.prefix_rfl fun grown isPrefix next _ => ?_
  rw [letters_intern]
  split
  · exact isPrefix
  · exact isPrefix.trans (List.prefix_append ..)

theorem letter?_internAll {symbol : Symbol}
    (found : alphabet.letter? symbol = some letter) (letters : List Char) :
    (alphabet.internAll letters).letter? symbol = some letter := by
  rcases isPrefix_internAll alphabet letters with ⟨further, isGrown⟩
  rcases List.getElem?_eq_some_iff.mp found with ⟨inside, _⟩
  rw [letter?, ← isGrown, List.getElem?_append_left inside]
  exact found

theorem code_internAll (known : letter ∈ alphabet.letters) (letters : List Char) :
    (alphabet.internAll letters).code letter = alphabet.code letter :=
  code_of_letter? (letter?_internAll (letter?_code known) letters)

theorem internAll_of_known {letters : List Char}
    (known : ∀ letter ∈ letters, letter ∈ alphabet.letters) :
    alphabet.internAll letters = alphabet := by
  induction letters with
  | nil => rfl
  | cons letter rest induction =>
      rcases List.forall_mem_cons.mp known with ⟨isKnown, known⟩
      rw [internAll, List.foldl_cons, intern_of_mem isKnown]
      exact induction known

theorem mem_or_mem_of_mem_internAll {letters : List Char}
    (member : letter ∈ (alphabet.internAll letters).letters) :
    letter ∈ alphabet.letters ∨ letter ∈ letters := by
  induction letters generalizing alphabet with
  | nil => exact .inl member
  | cons next rest induction =>
      rcases induction member with member | later
      · rw [letters_intern] at member
        split at member
        · exact .inl member
        · rcases List.mem_append.mp member with member | isNext
          · exact .inl member
          · exact .inr (List.mem_cons.mpr (.inl (List.mem_singleton.mp isNext)))
      · exact .inr (List.mem_cons_of_mem _ later)

theorem contains_codes (branches : BranchPair Char) (known : letter ∈ alphabet.letters) :
    (alphabet.codes branches).contains (alphabet.code letter) =
      branches.contains letter := by
  simp only [BranchPair.contains, codes, code_eq_iff known]

end LSystems.Alphabet
