import LSystems.Proofs.Renaming.Classes
import LSystems.Proofs.Renaming.Grammars

/-!
# Grammars of the same rules

A grammar is put together from the productions that its rules read as. The productions
for different letters may be mixed in any way: the grammars are alike. Main statements:
`Grammar.build_eq_ok_iff` and `Grammar.alike_of_assemble`.
-/

namespace LSystems

/-! ## Readings -/

theorem letters_readLetters {offset : Nat} {text letters : List Char}
    (done : (readLetters offset text).outcome = .ok letters) :
    (readLetters offset text).letters = letters := by
  fun_induction readLetters offset text generalizing letters with
  | case1 =>
      cases done
      rfl
  | case2 _ _ _ _ induction => exact induction done
  | case3 => contradiction
  | case4 offset character rest _ _ induction =>
      simp only [Reading.outcome_bind, Reading.outcome_meet, Reading.outcome_pure,
        bind_eq_ok] at done
      rcases done with ⟨_, _, further, areFurther, equal⟩
      cases equal
      rw [Reading.letters_bind (Reading.outcome_meet _), Reading.letters_bind areFurther,
        induction areFurther]
      simp

namespace Production

theorem readAll_eq_ok_iff {globals : List String}
    {branches : BranchPair Char} {index : Nat} {texts : List String}
    {productions : List Production} :
    (readAll globals branches index texts).outcome = .ok productions ↔
      List.Forall₂ (fun text production =>
        (read globals branches text).outcome = .ok production)
        texts productions := by
  refine ⟨forall₂_of_readAll, fun areRead => ?_⟩
  induction areRead generalizing index with
  | nil => rfl
  | cons isRead _ induction =>
      simp only [readAll, Reading.outcome_bind, Reading.outcome_pure, bind_eq_ok]
      exact ⟨_, mapError_eq_ok.mpr isRead, _, induction, rfl⟩

/-- Both lists have the same productions for each letter, in the same order. -/
def SameForTargets (first second : List Production) : Prop :=
  ∀ letter, first.filter (fun production => production.target.letter = letter) =
    second.filter fun production => production.target.letter = letter

namespace SameForTargets

variable {first second : List Production}

theorem refl (productions : List Production) : SameForTargets productions productions :=
  fun _ => rfl

theorem mem_iff (same : SameForTargets first second) {production : Production} :
    production ∈ first ↔ production ∈ second := by
  have alike := congrArg (production ∈ ·) (same production.target.letter)
  simpa using alike

theorem exchange {left right : Production}
    (differ : left.target.letter ≠ right.target.letter) (before after : List Production) :
    SameForTargets (before ++ left :: right :: after)
      (before ++ right :: left :: after) := by
  intro letter
  simp only [List.filter_append, List.filter_cons]
  by_cases isLeft : left.target.letter = letter
  · have notRight : ¬ right.target.letter = letter := fun isRight =>
      differ (isLeft.trans isRight.symm)
    simp [isLeft, notRight]
  · simp [isLeft]

theorem rearranged (same : SameForTargets first second) {name : Symbol → Symbol}
    (injective : Function.Injective name) {alphabet other : Alphabet}
    (known : ∀ production ∈ first, ∀ letter ∈ production.letters,
      letter ∈ alphabet.letters)
    (codes : ∀ letter ∈ alphabet.letters,
      name (alphabet.code letter) = other.code letter) :
    Rearranged name alphabet.code other.code first second where
  injective := injective
  codes production member letter isLetter :=
    codes letter (known production member letter isLetter)
  alike symbol := by
    have targets : ∀ production ∈ first, production.target.letter ∈ alphabet.letters :=
      fun production member => known production member _ production.letter_target_mem
    have alsoTargets :
        ∀ production ∈ second, production.target.letter ∈ alphabet.letters :=
      fun production member => targets production (same.mem_iff.mpr member)
    have restated : ∀ productions : List Production,
        (∀ production ∈ productions, production.target.letter ∈ alphabet.letters) →
        productions.filter (fun production =>
          alphabet.code production.target.letter = symbol) =
          productions.filter fun production =>
            alphabet.letter? symbol = some production.target.letter := by
      intro productions areKnown
      apply List.filter_congr
      intro production member
      apply decide_eq_decide.mpr
      constructor
      · rintro rfl
        exact Alphabet.letter?_code (areKnown production member)
      · exact Alphabet.code_of_letter?
    rw [restated first targets, restated second alsoTargets]
    cases alphabet.letter? symbol with
    | none => simp
    | some letter => simpa [eq_comm] using same letter

end SameForTargets

end Production

/-! ## Putting grammars together -/

namespace CompilerSettings

def alphabet (compiler : CompilerSettings) : Alphabet :=
  (Alphabet.ofBranches compiler.opening compiler.closing).internAll
    (readLetters 0 compiler.ignored.toList).letters

def branches (compiler : CompilerSettings) : BranchPair Char :=
  ⟨compiler.opening, compiler.closing⟩

theorem branches_known (compiler : CompilerSettings) :
    compiler.opening ∈ compiler.alphabet.letters ∧
    compiler.closing ∈ compiler.alphabet.letters :=
  ⟨Alphabet.mem_internAll (Alphabet.mem_ofBranches ..).1,
    Alphabet.mem_internAll (Alphabet.mem_ofBranches ..).2⟩

end CompilerSettings

namespace Grammar

def alphabetOf (compiler : CompilerSettings) (productions : List Production) : Alphabet :=
  compiler.alphabet.internAll (productions.flatMap Production.letters)

/-- The grammar of productions that have been read. -/
def assemble (names : List String) (compiler : CompilerSettings)
    (stepping : SteppingSettings) (ignored : List Char) (productions : List Production) :
    Except Error Grammar :=
  let alphabet := alphabetOf compiler productions
  let settings : TableSettings :=
    ⟨alphabet.codes compiler.branches, ⟨ignored.map alphabet.code⟩, compiler.tolerance⟩
  (RuleTable.ofProductions settings names alphabet.code productions).map fun table =>
    ⟨alphabet, compiler.branches, table, stepping⟩

variable {names rules : List String} {compiler : CompilerSettings}
    {stepping : SteppingSettings}
  {ignored : List Char} {grammar : Grammar}

theorem mem_alphabetOf_iff {productions : List Production} {letter : Char} :
    letter ∈ (alphabetOf compiler productions).letters ↔
      letter ∈ compiler.alphabet.letters ∨
        ∃ production ∈ productions, letter ∈ production.letters := by
  rw [← List.mem_flatMap]
  constructor
  · exact Alphabet.mem_or_mem_of_mem_internAll
  · rintro (isKnown | isRead)
    · exact Alphabet.mem_internAll isKnown
    · exact Alphabet.mem_internAll_self isRead

theorem known_of_readLetters
    (areIgnored : (readLetters 0 compiler.ignored.toList).outcome = .ok ignored) :
    ∀ letter ∈ ignored, letter ∈ compiler.alphabet.letters := by
  intro letter member
  apply Alphabet.mem_internAll_self
  rwa [letters_readLetters areIgnored]

theorem build_eq_assemble {productions : List Production}
    (valid : compiler.validate = .ok ()) (steps : stepping.validate = .ok ())
    (areIgnored : (readLetters 0 compiler.ignored.toList).outcome = .ok ignored)
    (areRead : (Production.readAll names compiler.branches 0 rules).outcome =
      .ok productions) :
    build rules names compiler stepping =
      assemble names compiler stepping ignored productions := by
  have branches := CompilerSettings.branchLetters_of_validate valid
  have final :
      compiler.alphabet.internAll
          (Production.readAll names compiler.branches 0 rules).letters =
      alphabetOf compiler productions := by
    rw [Production.letters_readAll areRead, alphabetOf]
  have codes : ignored.map compiler.alphabet.code =
      ignored.map (alphabetOf compiler productions).code := by
    apply List.map_congr_left
    intro letter member
    exact (Alphabet.code_internAll (known_of_readLetters areIgnored letter member) _).symm
  have compiled : compiler.alphabet.compileTable compiler.branches
        ⟨ignored.map compiler.alphabet.code⟩ compiler.tolerance names rules =
      (RuleTable.ofProductions
        ⟨(alphabetOf compiler productions).codes compiler.branches,
          ⟨ignored.map (alphabetOf compiler productions).code⟩, compiler.tolerance⟩ names
        (alphabetOf compiler productions).code productions,
        alphabetOf compiler productions) := by
    simp only [Alphabet.compileTable, Alphabet.take, final, codes, areRead]
    rfl
  have taken : (Alphabet.ofBranches compiler.opening compiler.closing).take
      (readLetters 0 compiler.ignored.toList) = (.ok ignored, compiler.alphabet) :=
    Prod.ext areIgnored rfl
  have bound : build rules names compiler stepping =
      (let result := compiler.alphabet.compileTable compiler.branches
        ⟨ignored.map compiler.alphabet.code⟩ compiler.tolerance names rules
      result.1 >>= fun table => .ok ⟨result.2, compiler.branches, table, stepping⟩) := by
    simp only [build, valid, branches, taken, steps]
    rfl
  rw [bound, compiled, assemble]
  dsimp only
  cases RuleTable.ofProductions _ names (alphabetOf compiler productions).code
    productions <;> rfl

theorem build_eq_ok_iff :
    build rules names compiler stepping = .ok grammar ↔
      compiler.validate = .ok () ∧ stepping.validate = .ok () ∧ ∃ ignored productions,
        (readLetters 0 compiler.ignored.toList).outcome = .ok ignored ∧
        (Production.readAll names compiler.branches 0 rules).outcome = .ok productions ∧
        assemble names compiler stepping ignored productions = .ok grammar := by
  constructor
  · intro built
    have unfolded := built
    simp only [build, bind_eq_ok, pure_eq_ok] at unfolded
    rcases unfolded with
      ⟨_, valid, branches, isBranches, ignored, areIgnored, table, compiled, _, steps, _⟩
    rcases Alphabet.of_branchLetters isBranches with ⟨_, _, rfl⟩
    rcases bind_eq_ok.mp compiled with ⟨productions, areRead, _⟩
    exact ⟨valid, steps, ignored, productions, areIgnored, areRead,
      build_eq_assemble valid steps areIgnored areRead ▸ built⟩
  · rintro ⟨valid, steps, ignored, productions, areIgnored, areRead, assembled⟩
    rw [build_eq_assemble valid steps areIgnored areRead, assembled]

variable {first second : List Production}

theorem mem_alphabetOf_congr (same : Production.SameForTargets first second)
    {letter : Char} :
    letter ∈ (alphabetOf compiler first).letters ↔
      letter ∈ (alphabetOf compiler second).letters := by
  simp only [mem_alphabetOf_iff, same.mem_iff]

theorem settings_rename (known : ∀ letter ∈ ignored, letter ∈ compiler.alphabet.letters)
    {name : Symbol → Symbol}
    (codes : ∀ letter ∈ (alphabetOf compiler first).letters,
      name ((alphabetOf compiler first).code letter) =
      (alphabetOf compiler second).code letter) :
    (alphabetOf compiler second).codes compiler.branches =
        ((alphabetOf compiler first).codes compiler.branches).map name ∧
      (⟨ignored.map (alphabetOf compiler second).code⟩ : SymbolSet) =
        SymbolSet.map name ⟨ignored.map (alphabetOf compiler first).code⟩ := by
  have early : ∀ letter ∈ compiler.alphabet.letters,
      name ((alphabetOf compiler first).code letter) =
        (alphabetOf compiler second).code letter :=
    fun letter isKnown => codes letter (mem_alphabetOf_iff.mpr (.inl isKnown))
  rcases compiler.branches_known with ⟨opening, closing⟩
  constructor
  · simp only [Alphabet.codes, BranchPair.map, CompilerSettings.branches, early _ opening,
      early _ closing]
  · simp only [SymbolSet.map, List.map_map]
    congr 1
    apply List.map_congr_left
    intro letter member
    exact (early letter (known letter member)).symm

theorem rearranged_of_codes (same : Production.SameForTargets first second)
    {name : Symbol → Symbol} (injective : Function.Injective name) {other : Alphabet}
    (codes : ∀ letter ∈ (alphabetOf compiler first).letters,
      name ((alphabetOf compiler first).code letter) = other.code letter) :
    Production.Rearranged name (alphabetOf compiler first).code other.code first second :=
  same.rearranged injective
    (fun _ member _ isLetter => mem_alphabetOf_iff.mpr (.inr ⟨_, member, isLetter⟩)) codes

theorem alike_of_assemble (same : Production.SameForTargets first second)
    (known : ∀ letter ∈ ignored, letter ∈ compiler.alphabet.letters) {other : Grammar}
    (assembled : assemble names compiler stepping ignored first = .ok grammar)
    (alsoAssembled : assemble names compiler stepping ignored second = .ok other) :
    grammar.Alike other := by
  rcases map_eq_ok.mp assembled with ⟨table, accepted, rfl⟩
  rcases map_eq_ok.mp alsoAssembled with ⟨rearrangedTable, alsoAccepted, rfl⟩
  refine ⟨rfl, fun letter => (mem_alphabetOf_congr same).mp,
    fun name injective codes => ?_⟩
  rcases settings_rename known codes with ⟨branches, areIgnored⟩
  rw [branches, areIgnored] at alsoAccepted
  exact RuleTable.renames_of_ofProductions (rearranged_of_codes same injective codes)
    accepted
    alsoAccepted

theorem exists_assemble (same : Production.SameForTargets first second)
    (known : ∀ letter ∈ ignored, letter ∈ compiler.alphabet.letters)
    (assembled : assemble names compiler stepping ignored first = .ok grammar) :
    ∃ other, assemble names compiler stepping ignored second = .ok other := by
  rcases map_eq_ok.mp assembled with ⟨table, accepted, _⟩
  have injective : Function.Injective
      ((alphabetOf compiler first).translate (alphabetOf compiler second)) :=
    Alphabet.translate_injective fun _ => (mem_alphabetOf_congr same).mp
  have codes : ∀ letter ∈ (alphabetOf compiler first).letters,
      (alphabetOf compiler first).translate (alphabetOf compiler second)
        ((alphabetOf compiler first).code letter) =
          (alphabetOf compiler second).code letter :=
    fun _ => Alphabet.translate_code _
  rcases settings_rename known codes with ⟨branches, areIgnored⟩
  rcases (rearranged_of_codes same injective codes).exists_ofProductions
    ⟨table, accepted⟩ with
    ⟨rearrangedTable, alsoAccepted⟩
  rw [← branches, ← areIgnored] at alsoAccepted
  exact ⟨_, map_eq_ok.mpr ⟨_, alsoAccepted, rfl⟩⟩

theorem Made.alike_self (made : grammar.Made) : grammar.Alike grammar := by
  induction made with
  | built built =>
      rcases build_eq_ok_iff.mp built with
        ⟨_, _, ignored, productions, areIgnored, _, assembled⟩
      exact alike_of_assemble (.refl productions) (known_of_readLetters areIgnored)
        assembled
        assembled
  | read text _ alike => exact alike.read text

end Grammar

end LSystems
