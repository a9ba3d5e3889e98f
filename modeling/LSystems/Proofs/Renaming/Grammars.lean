import LSystems.Proofs.Derivation.Running
import LSystems.Proofs.Renaming.Rules

/-!
# Grammars that derive alike

Two grammars are alike when one has the rules of the other under its own numbers. From
any text they then go through the same generations, as these are displayed. Main
statement: `Grammar.Alike.display_eq`.
-/

namespace LSystems

/-! ## From one alphabet to another -/

namespace Alphabet

variable {source target : Alphabet}

/-- The number that a symbol of one alphabet has in another. A symbol without a letter
gets a number behind those of all letters. -/
def translate (source target : Alphabet) (symbol : Symbol) : Symbol :=
  match source.letter? symbol with
  | some letter => target.code letter
  | none => symbol + target.size

theorem translate_code (target : Alphabet) {letter : Char}
    (known : letter ∈ source.letters) :
    source.translate target (source.code letter) = target.code letter := by
  rw [translate, letter?_code known]

section

variable (known : ∀ letter ∈ source.letters, letter ∈ target.letters)
include known

theorem letter?_translate (symbol : Symbol) :
    target.letter? (source.translate target symbol) = source.letter? symbol := by
  rw [translate]
  split
  · next letter found =>
      rw [found, letter?_code (known letter (mem_of_letter? found))]
  · next none =>
      rw [none]
      exact List.getElem?_eq_none (Nat.le_add_left ..)

theorem translate_injective : Function.Injective (source.translate target) := by
  intro first second same
  have letters := congrArg target.letter? same
  rw [letter?_translate known, letter?_translate known] at letters
  cases found : source.letter? first with
  | some letter =>
      rw [found] at letters
      rw [← code_of_letter? found, code_of_letter? letters.symm]
  | none =>
      rw [found] at letters
      simp only [translate, found, ← letters] at same
      exact Nat.add_right_cancel same

end

end Alphabet

/-! ## Words -/

namespace Word

variable {name : Symbol → Symbol}

theorem text_rename {alphabet other : Alphabet}
    (letters : ∀ symbol, other.letter? (name symbol) = alphabet.letter? symbol)
    (word : Word) :
    (word.rename name).text other = word.text alphabet := by
  have cellText : ∀ cell : Cell, Word.cellText other (cell.rename name) =
      Word.cellText alphabet cell := by
    intro cell
    simp only [Word.cellText, Cell.rename, letters]
  simp only [text, cells_rename, List.flatMap_map, cellText]

theorem ofEmissions_rename {code other : Char → Symbol} {emissions : List (Emission Char)}
    (codes : ∀ emission ∈ emissions,
      name (code emission.symbol) = other emission.symbol) :
    ofEmissions other emissions = (ofEmissions code emissions).rename name := by
  rw [ofEmissions, ofEmissions, ← ofCells_map_rename, List.map_map]
  congr 1
  apply List.map_congr_left
  intro emission member
  simp [Emission.rename, Emission.cell, Cell.rename, codes emission member]

end Word

namespace Grammar

/-! ## Derivations -/

/-- The generation that a text leads to by a step with each of the given rows of values
of the globals, one after another. -/
def derive (grammar : Grammar) (text : String) (seed : UInt64)
    (values : List (List Float)) :
    Except Error Generation := do
  let (first, grammar) := grammar.reset text seed
  values.foldlM grammar.step (← first)

/-- The text of a generation and the parameters at each of its positions. -/
def display (grammar : Grammar) (generation : Generation) : String × List (List Float) :=
  (grammar.text generation.word,
    (List.range generation.word.size).map generation.word.parameters)

theorem derive_eq_bind (grammar : Grammar) (text : String) (seed : UInt64)
    (values : List (List Float)) :
    grammar.derive text seed values =
      (grammar.reset text seed).1 >>= values.foldlM (grammar.parseInitial text).2.step :=
  rfl

theorem Made.compact_of_reset {grammar : Grammar} (made : grammar.Made) {text : String}
    {seed : UInt64} {first : Generation}
    (started : (grammar.reset text seed).1 = .ok first) :
    first.word.Compact := by
  have reached : (grammar.reset text seed).2.Reached Word.Compact first :=
    .reset made started
  exact reached.compact fun _ => id

theorem Made.exists_foldlM_step {grammar : Grammar} (made : grammar.Made)
    {values : List (List Float)}
    (counts : ∀ globals ∈ values, globals.length = grammar.table.globals.length)
    {generation : Generation} (compact : generation.word.Compact) :
    ∃ last, values.foldlM grammar.step generation = .ok last := by
  induction values generalizing generation with
  | nil => exact ⟨generation, rfl⟩
  | cons globals rest induction =>
      rcases List.forall_mem_cons.mp counts with ⟨count, further⟩
      rcases made.exists_step count compact with ⟨next, stepped, alsoCompact⟩
      rcases induction further alsoCompact with ⟨last, done⟩
      refine ⟨last, ?_⟩
      rw [List.foldlM_cons, stepped]
      exact done

theorem Made.exists_derive {grammar : Grammar} (made : grammar.Made) {text : String}
    {seed : UInt64} {first : Generation}
    (started : (grammar.reset text seed).1 = .ok first) {values : List (List Float)}
    (counts : ∀ globals ∈ values, globals.length = grammar.table.globals.length) :
    ∃ last, grammar.derive text seed values = .ok last := by
  rw [derive_eq_bind, started]
  exact (made.read text).exists_foldlM_step counts (made.compact_of_reset started)

/-- With the same values in every step, a derivation is a run. -/
theorem derive_replicate (grammar : Grammar) (text : String) (seed : UInt64)
    (globals : List Float) (steps : Nat) :
    grammar.derive text seed (List.replicate steps globals) =
      (grammar.reset text seed).1 >>= fun first =>
        ((grammar.reset text seed).2.run globals steps first).1 := by
  have ran : ∀ (grammar : Grammar) (generation : Generation),
      (List.replicate steps globals).foldlM grammar.step generation =
        (grammar.run globals steps generation).1 := by
    intro grammar generation
    induction steps generalizing generation with
    | zero => rfl
    | succ steps induction =>
        simp only [List.replicate_succ, List.foldlM_cons, step, stepWith, run,
          RuleTable.run]
          at induction ⊢
        cases (grammar.table.stepWith grammar.stepping.batchSize generation globals false
          fun _ => false).outcome with
        | error => rfl
        | ok next => exact induction next
  rw [derive_eq_bind]
  simp only [ran]
  rfl

theorem display_rename {first second : Grammar} {name : Symbol → Symbol}
    (letters : ∀ symbol,
      second.alphabet.letter? (name symbol) = first.alphabet.letter? symbol)
    (generation : Generation) :
    second.display (generation.rename name) = first.display generation := by
  simp only [display, Generation.rename, Word.size_rename,
    Word.parameters_rename, Grammar.text, Word.text_rename letters]

theorem resetWord_rename {first second : Grammar} {name : Symbol → Symbol}
    (renames : first.table.Renames name second.table) (word : Word) (seed : UInt64) :
    second.resetWord (word.rename name) seed =
      (first.resetWord word seed).map (Generation.rename name) := by
  have table :
      BracketTable.ofSymbols second.table.settings.branches (word.rename name).symbols =
      BracketTable.ofSymbols first.table.settings.branches word.symbols := by
    rw [renames.branches]
    exact BracketTable.ofSymbols_rename renames.injective ..
  rw [resetWord, resetWord, table]
  cases (BracketTable.ofSymbols first.table.settings.branches word.symbols).validate <;>
    rfl

theorem reset_eq_bind (grammar : Grammar) (text : String) (seed : UInt64) :
    let next := (grammar.parseInitial text).2
    (grammar.reset text seed).1 =
      (readBalanced Scope.empty grammar.branches .initialWord
        ⟨0, text.toList⟩).outcome >>=
        fun emissions =>
          next.resetWord (.ofEmissions next.alphabet.code emissions) seed := by
  simp only [reset, parseInitial, Alphabet.parseInitial, Alphabet.readWord, Alphabet.take]
  cases (readBalanced Scope.empty grammar.branches .initialWord
    ⟨0, text.toList⟩).outcome <;> rfl

theorem foldlM_step_rename {first second : Grammar} {name : Symbol → Symbol}
    (renames : first.table.Renames name second.table) (madeFirst : first.Made)
    (madeSecond : second.Made) {generation : Generation}
    (compact : generation.word.Compact) (values : List (List Float)) :
    values.foldlM second.step (generation.rename name) =
      (values.foldlM first.step generation).map (Generation.rename name) := by
  induction values generalizing generation with
  | nil => rfl
  | cons globals rest induction =>
      have stepped : second.step (generation.rename name) globals =
          (first.step generation globals).map (Generation.rename name) :=
        renames.outcome_stepWith madeFirst.sound.table madeSecond.sound.table compact ..
      rw [List.foldlM_cons, List.foldlM_cons, stepped]
      cases isNext : first.step generation globals with
      | error => rfl
      | ok next =>
          rcases RuleTable.exists_becomeFrom_of_stepWith madeFirst.sound.table
            compact isNext with
            ⟨_, _, _, made⟩
          exact induction (made ▸ Word.compact_ofCells _)

/-! ## Grammars that are alike -/

/-- The second grammar knows the letters of the first, and has its rules under its own
numbers for them. -/
structure Alike (first second : Grammar) : Prop where
  branches : first.branches = second.branches
  known : ∀ letter ∈ first.alphabet.letters, letter ∈ second.alphabet.letters
  renames : ∀ name : Symbol → Symbol, Function.Injective name →
    (∀ letter ∈ first.alphabet.letters,
      name (first.alphabet.code letter) = second.alphabet.code letter) →
    first.table.Renames name second.table

namespace Alike

variable {first second : Grammar}

theorem read_second (alike : first.Alike second) (text : String) :
    first.Alike (second.parseInitial text).2 where
  branches := alike.branches
  known letter member := Alphabet.mem_internAll (alike.known letter member)
  renames name injective codes := by
    apply alike.renames name injective
    intro letter member
    rw [codes letter member]
    exact Alphabet.code_internAll (alike.known letter member) _

theorem afterReading (alike : first.Alike second) (texts : List String) :
    first.Alike (second.afterReading texts) := by
  induction texts generalizing second with
  | nil => exact alike
  | cons text rest induction => exact induction (alike.read_second text)

theorem read (alike : first.Alike second) (text : String) :
    (first.parseInitial text).2.Alike (second.parseInitial text).2 := by
  have onSecond := alike.read_second text
  refine ⟨onSecond.branches, fun letter member => ?_, fun name injective codes => ?_⟩
  · rcases Alphabet.mem_or_mem_of_mem_internAll member with known | isRead
    · exact onSecond.known letter known
    · rw [alike.branches] at isRead
      exact Alphabet.mem_internAll_self isRead
  · apply onSecond.renames name injective
    intro letter member
    rw [← codes letter (Alphabet.mem_internAll member)]
    exact congrArg name (Alphabet.code_internAll member _).symm

/-- The numbers that the second gives to the symbols of the first once both have read a
text. -/
def renumber (first second : Grammar) (text : String) : Symbol → Symbol :=
  (first.parseInitial text).2.alphabet.translate (second.parseInitial text).2.alphabet

theorem renames_renumber (alike : first.Alike second) (text : String) :
    (first.parseInitial text).2.table.Renames (renumber first second text)
      (second.parseInitial text).2.table :=
  (alike.read text).renames _ (Alphabet.translate_injective (alike.read text).known)
    fun _ => Alphabet.translate_code _

theorem reset_eq (alike : first.Alike second) (text : String) (seed : UInt64) :
    (second.reset text seed).1 =
      (first.reset text seed).1.map (Generation.rename (renumber first second text)) := by
  rw [reset_eq_bind, reset_eq_bind, ← alike.branches]
  cases areRead :
    (readBalanced Scope.empty first.branches .initialWord ⟨0, text.toList⟩).outcome with
  | error => rfl
  | ok emissions =>
      have codes : ∀ emission ∈ emissions, renumber first second text
          ((first.parseInitial text).2.alphabet.code emission.symbol) =
            (second.parseInitial text).2.alphabet.code emission.symbol := by
        intro emission member
        apply Alphabet.translate_code
        apply Alphabet.mem_internAll_self
        rw [letters_readBalanced areRead]
        exact List.mem_map_of_mem member
      have onSecond := resetWord_rename (alike.renames_renumber text)
        (.ofEmissions (first.parseInitial text).2.alphabet.code emissions) seed
      rw [← Word.ofEmissions_rename codes] at onSecond
      exact onSecond

theorem derive_eq (alike : first.Alike second) (madeFirst : first.Made)
    (madeSecond : second.Made) (text : String) (seed : UInt64)
    (values : List (List Float)) :
    second.derive text seed values =
      (first.derive text seed values).map
        (Generation.rename (renumber first second text)) := by
  rw [derive_eq_bind, derive_eq_bind, alike.reset_eq]
  cases started : (first.reset text seed).1 with
  | error => rfl
  | ok generation =>
      exact foldlM_step_rename (alike.renames_renumber text) (madeFirst.read text)
        (madeSecond.read text) (madeFirst.compact_of_reset started) values

theorem display_eq (alike : first.Alike second) (madeFirst : first.Made)
    (madeSecond : second.Made) (text : String) (seed : UInt64) :
    (second.reset text seed).1.isOk = (first.reset text seed).1.isOk ∧
    ∀ values : List (List Float),
      (second.derive text seed values).map (second.reset text seed).2.display =
        (first.derive text seed values).map (first.reset text seed).2.display := by
  constructor
  · rw [alike.reset_eq]
    cases (first.reset text seed).1 <;> rfl
  · intro values
    have held : ∀ grammar : Grammar,
        (grammar.reset text seed).2 = (grammar.parseInitial text).2 :=
      fun _ => rfl
    have letters := Alphabet.letter?_translate (alike.read text).known
    have shown := display_rename letters
    rw [alike.derive_eq madeFirst madeSecond, held, held]
    cases first.derive text seed values with
    | error => simp only [Except.map]
    | ok generation => exact congrArg Except.ok (shown generation)

end Alike

end Grammar

end LSystems
