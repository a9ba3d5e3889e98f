import LSystems.CommandLine
import LSystems.Proofs.Derivation.Display
import LSystems.Proofs.Errors

/-!
# Runs that have started

Settings that pass their validation can only fail while rules are compiled or the word
to start from is read: a word that is read starts a run, and no step of a run fails.
Main statement: `Settings.runs_of_validate`.
-/

namespace LSystems

/-! ## Compiling -/

theorem CompilerSettings.branchLetters_of_validate {compiler : CompilerSettings}
    (valid : compiler.validate = .ok ()) :
    Alphabet.branchLetters compiler.opening compiler.closing =
      .ok ⟨compiler.opening, compiler.closing⟩ := by
  unfold validate at valid
  dsimp only at valid
  by_cases same : compiler.opening = compiler.closing
  · rw [if_pos same] at valid
    contradiction
  · rw [if_neg same] at valid
    simp only [bind_eq_ok] at valid
    rcases valid with ⟨_, opening, _, closing, _⟩
    rw [Alphabet.branchLetters, opening, closing]
    simp [same, bind, Except.bind, pure, Except.pure]

namespace Settings

variable {settings : Settings}

theorem of_validate (valid : settings.validate = .ok ()) :
    settings.compiler.validate = .ok () ∧ settings.stepping.validate = .ok () := by
  simp only [validate, bind_eq_ok] at valid
  rcases valid with ⟨_, _, _, compiler, stepping⟩
  exact ⟨compiler, stepping⟩

theorem errors_ofSettings (valid : settings.validate = .ok ()) :
    ErrorsAre Error.IsOfRules (Grammar.ofSettings settings) := by
  rcases of_validate valid with ⟨compiler, stepping⟩
  rw [Grammar.ofSettings, Grammar.build, compiler,
    CompilerSettings.branchLetters_of_validate compiler, stepping]
  refine .bind (.ok ()) fun _ _ => .bind (.ok _) fun branches _ =>
    .bind ?_ fun ignored _ =>
    .bind (Alphabet.errors_compileTable ..) fun table _ => .bind (.ok ()) fun _ _ => .ok _
  exact (errors_readLetters 0 _).mono fun _ => Error.IsReading.isOfRules

theorem length_globalValues {grammar : Grammar}
    (built : Grammar.ofSettings settings = .ok grammar) :
    settings.system.globalValues.length = grammar.table.globals.length := by
  rw [(Grammar.sound_of_build built).2, SystemSettings.globalValues,
    SystemSettings.globalNames, List.length_map, List.length_map]

end Settings

namespace Grammar

variable {grammar : Grammar}

/-! ## Starting -/

/-- What a grammar is when texts have been read with it, one after another. -/
def afterReading (grammar : Grammar) (texts : List String) : Grammar :=
  texts.foldl (fun grammar text => (grammar.parseInitial text).2) grammar

theorem table_afterReading (grammar : Grammar) (texts : List String) :
    (grammar.afterReading texts).table = grammar.table := by
  induction texts generalizing grammar with
  | nil => rfl
  | cons text rest induction => exact induction (grammar.parseInitial text).2

theorem Made.afterReading (made : grammar.Made) (texts : List String) :
    (grammar.afterReading texts).Made := by
  induction texts generalizing grammar with
  | nil => exact made
  | cons text rest induction => exact induction (made.read text)

theorem Made.resetWord_of_parseInitial (made : grammar.Made) {text : String} {word : Word}
    (parsed : (grammar.parseInitial text).1 = .ok word) (seed : UInt64) :
    (grammar.parseInitial text).2.resetWord word seed = .ok ⟨word, seed, 0⟩ := by
  rcases map_eq_ok.mp parsed with ⟨emissions, areRead, rfl⟩
  have lettered := (made.read text).lettered
  have known : ∀ letter ∈ emissions.map Emission.symbol,
      letter ∈ (grammar.parseInitial text).2.alphabet.letters := by
    intro letter isLetter
    apply Alphabet.mem_internAll_self
    exact letters_readBalanced areRead ▸ isLetter
  have balanced := checkBalance_eq_ok_iff.mp (of_readBalanced areRead).2
  rw [List.map_map] at balanced
  have numbered := (Alphabet.depth?_codes grammar.branches known 0).trans balanced
  rw [resetWord, BracketTable.validate_eq_ok_iff.mpr]
  · rfl
  · rw [lettered.codes, Word.ofEmissions, Word.toList_symbols_ofCells, List.map_map]
    rw [List.map_map] at numbered
    exact numbered

theorem Made.parseInitial_of_reset (made : grammar.Made) {text : String} {seed : UInt64}
    {error : Error} (failed : (grammar.reset text seed).1 = .error error) :
    (grammar.parseInitial text).1 = .error error := by
  have bound : ((grammar.parseInitial text).1 >>= fun word =>
      (grammar.parseInitial text).2.resetWord word seed) = .error error := failed
  cases parsed : (grammar.parseInitial text).1 with
  | error other =>
      rw [parsed] at bound
      cases bound
      rfl
  | ok word =>
      rw [parsed] at bound
      exact nomatch (made.resetWord_of_parseInitial parsed seed).symm.trans bound

/-! ## Stepping -/

theorem Made.exists_step (made : grammar.Made) {globals : List Float}
    (count : globals.length = grammar.table.globals.length) {generation : Generation}
    (compact : generation.word.Compact) :
    ∃ next, grammar.step generation globals = .ok next ∧ next.word.Compact := by
  rcases generation with ⟨word, seed, step⟩
  have sound := made.sound.table
  rcases RuleTable.exists_becomeFrom sound with ⟨segments, length, become⟩
  exact ⟨_,
    (RuleTable.stepWith_eq sound compact count grammar.stepping.batchSize
      length become).2,
    Word.compact_ofCells _⟩

theorem Made.exists_run (made : grammar.Made) {globals : List Float}
    (count : globals.length = grammar.table.globals.length) (steps : Nat)
    {generation : Generation} (compact : generation.word.Compact) :
    ∃ last, (grammar.run globals steps generation).1 = .ok last := by
  induction steps generalizing generation with
  | zero => exact ⟨generation, rfl⟩
  | succ steps induction =>
      rcases made.exists_step count compact with ⟨next, stepped, alsoCompact⟩
      rcases induction alsoCompact with ⟨last, done⟩
      refine ⟨last, ?_⟩
      rw [step, stepWith] at stepped
      simp only [run, RuleTable.run, stepped]
      exact done

theorem Made.exists_run_of_reset (made : grammar.Made) {globals : List Float}
    (count : globals.length = grammar.table.globals.length) {text : String}
    {seed : UInt64} {first : Generation}
    (started : (grammar.reset text seed).1 = .ok first) (steps : Nat) :
    ∃ last, ((grammar.reset text seed).2.run globals steps first).1 = .ok last := by
  have reached : (grammar.reset text seed).2.Reached Word.Compact first :=
    .reset made started
  exact reached.made.exists_run count steps (reached.compact fun _ => id)

theorem outcome_lines (options : RunOptions) (globals : List Float) (steps : Nat)
    (generation : Generation) :
    (grammar.lines options globals steps generation).2 =
      (grammar.run globals steps generation).1 := by
  induction steps generalizing generation with
  | zero => rfl
  | succ steps induction =>
      simp only [lines, run, RuleTable.run, stepWith]
      cases (grammar.table.stepWith grammar.stepping.batchSize generation globals
        false fun _ =>
        false).outcome with
      | error => rfl
      | ok next => exact induction next

end Grammar

/-! ## Commands -/

/-- The store after sources have been taken one after another, whether they gave
settings or not. -/
def SettingsStore.after (sources : List SettingsSource) : SettingsStore :=
  sources.foldl (fun store source => (store.take source).2) .default

/-- The error of a run of settings is about their rules or about the text that they
start from. -/
inductive Settings.FailsWith (settings : Settings) : Failure → Prop
  | compiling {error} : Grammar.ofSettings settings = .error error →
      FailsWith settings ⟨some "compiling rules", error⟩
  | starting {grammar error} : Grammar.ofSettings settings = .ok grammar →
      (grammar.parseInitial settings.system.start).1 = .error error →
      FailsWith settings ⟨none, error⟩

namespace Command

/-- The error of a run of a file is about loading the file, or one of the settings in
it. -/
inductive FailsWith (path : String) (format : FileFormat) (text? : Option String)
    (environment : List (String × String)) : Failure → Prop
  | loading {error store} :
      SettingsStore.default.take (.layers format text? environment) = (.error error,
        store) →
      FailsWith path format text? environment ⟨some s!"loading {path}", error⟩
  | running {store failure} :
      SettingsStore.default.take (.layers format text? environment) = (.ok (), store) →
      store.settings.FailsWith failure → FailsWith path format text? environment failure

theorem failsWith_of_runSettings {settings : Settings} {options : RunOptions}
    {failure : Failure} (failed : (runSettings settings options).failure = some failure) :
    settings.FailsWith failure := by
  unfold runSettings at failed
  split at failed
  · next error refused =>
      cases failed
      exact .compiling refused
  · next grammar built =>
      have made := Grammar.Made.built built
      have count := Settings.length_globalValues built
      dsimp only at failed
      split at failed
      · next error _ refused =>
          cases failed
          exact .starting built (made.parseInitial_of_reset (congrArg Prod.fst refused))
      · next first grammar started =>
          rcases made.exists_run_of_reset count (congrArg Prod.fst started)
            (options.steps.getD settings.system.iterations) with ⟨last, done⟩
          rw [started, ← Grammar.outcome_lines options] at done
          simp only [done] at failed
          contradiction

theorem failsWith_of_run {path : String} {format : FileFormat} {text? : Option String}
    {environment : List (String × String)} {options : RunOptions} {failure : Failure}
    (failed : (run path format text? environment options).failure = some failure) :
    FailsWith path format text? environment failure := by
  unfold run at failed
  split at failed
  · next refused =>
      cases failed
      exact .loading refused
  · next loaded => exact .running loaded (failsWith_of_runSettings failed)

end Command

/-- Settings that are valid, as the settings of every store are, have no fault but in
their rules. A text that starts no run is one that cannot be read, whatever has been
read before. A run that has started goes on for any number of steps, so that a command
can fail only up to there. -/
theorem Settings.runs_of_validate {settings : Settings}
    (valid : settings.validate = .ok ()) :
    (∀ fault, Grammar.ofSettings settings ≠ .error (.configuration fault)) ∧
    (∀ grammar, Grammar.ofSettings settings = .ok grammar → ∀ texts text seed,
      let held := grammar.afterReading texts
      (∀ error, (held.reset text seed).1 = .error error →
        (held.parseInitial text).1 = .error error ∧ ∀ fault,
        error ≠ .malformedWord fault) ∧
      ∀ first, (held.reset text seed).1 = .ok first → ∀ steps, ∃ last,
        ((held.reset text seed).2.run settings.system.globalValues steps first).1 =
        .ok last) ∧
    (∀ options failure, (Command.runSettings settings options).failure = some failure →
      settings.FailsWith failure) ∧
    (∀ sources, (SettingsStore.after sources).settings.validate = .ok ()) ∧
    ∀ path format text? environment options failure,
      (Command.run path format text? environment options).failure = some failure →
      Command.FailsWith path format text? environment failure := by
  refine ⟨fun fault refused => (errors_ofSettings valid).of_eq _ refused, ?_,
    fun _ _ => Command.failsWith_of_runSettings, fun sources =>
      (SettingsStore.after sources).valid,
    fun _ _ _ _ _ _ => Command.failsWith_of_run⟩
  intro grammar built texts text seed held
  have made : held.Made := (Grammar.Made.built built).afterReading texts
  constructor
  · intro error failed
    have unread := made.parseInitial_of_reset failed
    refine ⟨unread, ?_⟩
    rintro fault rfl
    exact (Alphabet.errors_parseInitial ..).of_eq _ unread
  · intro first started steps
    have count : settings.system.globalValues.length = held.table.globals.length := by
      rw [show held.table = grammar.table from grammar.table_afterReading texts]
      exact length_globalValues built
    exact made.exists_run_of_reset count started steps

/-- The system of the settings that a store starts with may be stepped a million times. -/
theorem Settings.runs_of_validate_default :
    ∃ (grammar : Grammar) (first last : Generation),
      Settings.default.validate = .ok () ∧ Grammar.ofSettings .default = .ok grammar ∧
      (grammar.reset "A" 0).1 = .ok first ∧
      ((grammar.reset "A" 0).2.run [] 1000000 first).1 = .ok last := by
  have started : (Grammar.ofSettings .default).toOption.any
      (fun grammar => (grammar.reset "A" 0).1.isOk) = true := by decide +kernel
  cases built : Grammar.ofSettings .default with
  | error => simp [built, Except.toOption] at started
  | ok grammar =>
      simp only [built, Except.toOption, Option.any_some] at started
      cases isFirst : (grammar.reset "A" 0).1 with
      | error => simp [isFirst, Except.isOk, Except.toBool] at started
      | ok first =>
          have valid : Settings.default.validate = .ok () := rfl
          rcases ((runs_of_validate valid).2.1 grammar built [] "A" 0).2 first
            isFirst 1000000
            with ⟨last, isLast⟩
          exact ⟨grammar, first, last, valid, rfl, isFirst, isLast⟩

end LSystems
