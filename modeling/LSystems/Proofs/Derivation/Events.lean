import LSystems.Proofs.Derivation.Reached
import LSystems.Proofs.Derivation.Uses
import Mathlib.Logic.Function.Iterate

/-!
# Events

An observer is told of every step of a run in three events. A step that is cancelled
before all positions are matched ends there; otherwise cancelling it changes nothing.
Main statement: `Grammar.run_observed`.
-/

namespace LSystems

/-! ## Rewritten positions -/

namespace RuleTable

def findsAt (table : RuleTable) (word : Word) (globals : List Float)
    (position : Nat) : Bool :=
  (table.find? (table.scene word) globals position).isSome

variable {table : RuleTable} {word : Word} {globals : List Float}
    {seed : UInt64} {step : Nat}

theorem rewrittenCount_of_plan? (sound : table.Sound) (compact : word.Compact)
    (count : globals.length = table.globals.length) {batchSize : Nat}
    {batches : List Batch}
    (planned : table.plan? batchSize word globals seed step = some batches) :
    rewrittenCount batches =
      (List.range word.size).countP (table.findsAt word globals) := by
  have used :=
    congrArg (List.map Option.isSome) (uses_of_plan? sound compact count planned)
  have uses : (batches.flatMap Batch.uses).map Option.isSome =
      (batches.flatMap Batch.decisions).map Decision.isRewrite := by
    simp only [List.map_flatMap, Batch.uses, List.map_map, Function.comp_def,
      Decision.isSome_use?]
  have found : ((List.range word.size).map (table.useAt word globals)).map Option.isSome =
      (List.range word.size).map (table.findsAt word globals) := by
    simp only [List.map_map, Function.comp_def, useAt, Option.isSome_map]
    rfl
  have counted := congrArg (List.countP id) (uses.symm.trans (used.trans found))
  rwa [List.countP_map, List.countP_map] at counted

/-! ## Reports of steps -/

/-- A step with a value for every global parameter ends in one of two ways. If it has
been cancelled by the time all positions are matched, that is its error. Otherwise it
completes, whoever cancels it then. -/
theorem exists_stepWith_eq (sound : table.Sound) (batchSize : Nat)
    {generation : Generation} (compact : generation.word.Compact)
    (count : globals.length = table.globals.length) :
    ∃ next : Generation, next.word.Compact ∧ next.step = generation.step + 1 ∧
      let started := Event.started generation.step generation.word.size
      let matched := Event.matched generation.step
        ((List.range generation.word.size).countP (table.findsAt generation.word globals))
      let completed := Event.completed generation.step next.word.size
      ∀ (isCancelled : Bool) (cancels : Event → Bool),
        table.stepWith batchSize generation globals isCancelled cancels =
          if isCancelled || cancels started || cancels matched then
            ⟨.error (.cancelled generation.step), [started, matched], true⟩
          else ⟨.ok next, [started, matched, completed], cancels completed⟩ := by
  rcases generation with ⟨word, seed, step⟩
  have isCompact : word.Compact := compact
  have decided : ∃ segments, segments.length = word.size ∧
      table.BecomeFrom word globals seed step 0 segments := exists_becomeFrom sound
  rcases decided with ⟨segments, length, become⟩
  rcases stepWith_eq sound isCompact count batchSize length become with
    ⟨⟨batches, writes, planned, written, _, _⟩, stepped⟩
  have rewritten := rewrittenCount_of_plan? sound isCompact count planned
  have noMismatch : ¬ globals.length ≠ table.globals.length := fun differ => differ count
  refine ⟨⟨.ofCells segments.flatten, seed, step + 1⟩, Word.compact_ofCells _, rfl, ?_⟩
  intro started matched completed isCancelled cancels
  simp only [stepWith, if_neg noMismatch, planned, Bool.or_self,
    Bool.false_eq_true, if_false, rewritten] at stepped ⊢
  cases made : (Batch.place batches).word? table word globals with
  | none => simp [made] at stepped
  | some next =>
      simp only [made, Except.ok.injEq, Generation.mk.injEq, and_true] at stepped
      rw [stepped]

/-! ## Runs -/

theorem run_add (table : RuleTable) (batchSize : Nat) (globals : List Float)
    (first second : Nat) (start : Generation) :
    table.run batchSize globals (first + second) start =
      match table.run batchSize globals first start with
      | (.error error, events) => (.error error, events)
      | (.ok middle, events) =>
        let (outcome, further) := table.run batchSize globals second middle
        (outcome, events ++ further) := by
  induction first generalizing start with
  | zero => rw [Nat.zero_add]; rfl
  | succ first induction =>
      rw [Nat.add_right_comm, run, run]
      cases (table.stepWith batchSize start globals false fun _ => false).outcome with
      | error => rfl
      | ok next =>
          dsimp only
          rw [induction next]
          rcases table.run batchSize globals first next with ⟨_ | middle, events⟩
          · rfl
          · simp only [List.append_assoc]

theorem run_of_length_ne (count : globals.length ≠ table.globals.length)
    (batchSize steps : Nat) (start : Generation) :
    table.run batchSize globals steps start =
      if steps = 0 then (.ok start, [])
      else (.error (.parameterCount table.globals.length globals.length), []) := by
  cases steps with
  | zero => rfl
  | succ steps => simp [run, stepWith, count]

end RuleTable

namespace Grammar

variable {grammar : Grammar} {globals : List Float} {start : Generation}

/-- What an observer is told of the step from a generation to the next. -/
def eventsOfStep (grammar : Grammar) (globals : List Float)
    (generation next : Generation) : List Event :=
  [.started generation.step generation.word.size,
    .matched generation.step ((List.range generation.word.size).countP
      (grammar.table.findsAt generation.word globals)),
    .completed generation.step next.word.size]

theorem Made.exists_generations (made : grammar.Made) (compact : start.word.Compact)
    (count : globals.length = grammar.table.globals.length) :
    ∃ generations : Nat → Generation, generations 0 = start ∧
      ∀ index, (generations index).word.Compact ∧
        (generations index).step = start.step + index ∧
        (grammar.stepWith (generations index) globals false fun _ => false) =
          ⟨.ok (generations (index + 1)),
            grammar.eventsOfStep globals (generations index) (generations (index + 1)),
            false⟩ := by
  have each : ∀ generation : { generation : Generation // generation.word.Compact },
      ∃ next : { next : Generation // next.word.Compact },
        next.1.step = generation.1.step + 1 ∧
        (grammar.stepWith generation.1 globals false fun _ => false) =
          ⟨.ok next.1, grammar.eventsOfStep globals generation.1 next.1, false⟩ := by
    rintro ⟨generation, compact⟩
    rcases RuleTable.exists_stepWith_eq made.sound.table
      grammar.stepping.batchSize compact count
      with ⟨next, alsoCompact, isNext, reports⟩
    exact ⟨⟨next, alsoCompact⟩, isNext, reports false fun _ => false⟩
  choose next isNext reports using each
  refine ⟨fun index => (next^[index] ⟨start, compact⟩).1, rfl, fun index => ⟨?_, ?_, ?_⟩⟩
  · exact (next^[index] ⟨start, compact⟩).2
  · induction index with
    | zero => rfl
    | succ index induction =>
        dsimp only at induction ⊢
        rw [Function.iterate_succ_apply', isNext, induction, Nat.add_assoc]
  · dsimp only
    rw [Function.iterate_succ_apply']
    exact reports _

theorem run_eq_of_generations {generations : Nat → Generation}
    (steps : ∀ index,
      (grammar.stepWith (generations index) globals false fun _ => false) =
      ⟨.ok (generations (index + 1)),
        grammar.eventsOfStep globals (generations index) (generations (index + 1)),
        false⟩)
    (first count : Nat) :
    grammar.run globals count (generations first) =
      (.ok (generations (first + count)), (List.range' first count).flatMap fun index =>
        grammar.eventsOfStep globals (generations index) (generations (index + 1))) := by
  induction count generalizing first with
  | zero => rfl
  | succ count induction =>
      have report := steps first
      have further := induction (first + 1)
      rw [Grammar.stepWith] at report
      rw [Grammar.run] at further ⊢
      rw [RuleTable.run, report]
      dsimp only
      rw [further, List.range'_succ, List.flatMap_cons, Nat.add_right_comm, Nat.add_assoc]

/-- The runs of a grammar from a compact word, as all words that are made are.

With a value for every global parameter no step fails. For every step of a run an
observer is told the number of the step with the length of the word, the number of
positions at which a rule is found, and the length of the new word. A step that has been
cancelled by the time all positions are matched ends in that error behind two events; if
it is cancelled later, or not at all, it makes no difference. With another number of
values a run of any steps fails before the first event. A run can always be split in
two. -/
theorem run_observed (made : grammar.Made) (compact : start.word.Compact)
    (globals : List Float) :
    (globals.length = grammar.table.globals.length →
      ∃ generations : Nat → Generation, generations 0 = start ∧
        (∀ index,
          grammar.step (generations index) globals = .ok (generations (index + 1))) ∧
        (∀ steps, grammar.run globals steps start =
          (.ok (generations steps), (List.range steps).flatMap fun index =>
            [.started (start.step + index) (generations index).word.size,
              .matched (start.step + index)
              ((List.range (generations index).word.size).countP
                (grammar.table.findsAt (generations index).word globals)),
              .completed (start.step + index) (generations (index + 1)).word.size])) ∧
        ∀ (isCancelled : Bool) (cancels : Event → Bool),
          let started := Event.started start.step start.word.size
          let matched := Event.matched start.step
            ((List.range start.word.size).countP
              (grammar.table.findsAt start.word globals))
          let completed := Event.completed start.step (generations 1).word.size
          let plain := grammar.stepWith start globals false fun _ => false
          let report := grammar.stepWith start globals isCancelled cancels
          plain.outcome = .ok (generations 1) ∧
          plain.events = [started, matched, completed] ∧
            if isCancelled = true ∨ cancels started = true ∨ cancels matched = true then
              report.outcome = .error (.cancelled start.step) ∧
              report.events = [started, matched]
            else report.outcome = plain.outcome ∧ report.events = plain.events) ∧
    (globals.length ≠ grammar.table.globals.length → ∀ steps,
      grammar.run globals steps start = if steps = 0 then (.ok start, [])
      else (.error (.parameterCount grammar.table.globals.length globals.length), [])) ∧
    ∀ first second, grammar.run globals (first + second) start =
      match grammar.run globals first start with
      | (.error error, events) => (.error error, events)
      | (.ok middle, events) =>
        let (outcome, further) := grammar.run globals second middle
        (outcome, events ++ further) := by
  refine ⟨fun count => ?_, fun count steps => ?_, fun first second => ?_⟩
  · rcases made.exists_generations compact count with ⟨generations, isStart, known⟩
    have steps := fun index => (known index).2.2
    refine ⟨generations, isStart, fun index => ?_, fun number => ?_,
      fun isCancelled cancels => ?_⟩
    · rw [step, steps]
    · have ran := run_eq_of_generations steps 0 number
      simp only [eventsOfStep, fun index => (known index).2.1] at ran
      rwa [isStart, Nat.zero_add, ← List.range_eq_range'] at ran
    · intro started matched completed plain report
      rcases RuleTable.exists_stepWith_eq made.sound.table
        grammar.stepping.batchSize compact count
        with ⟨next, _, _, reports⟩
      have isPlain :
          plain = ⟨.ok (generations 1), [started, matched, completed], false⟩ := by
        have first := steps 0
        rwa [isStart] at first
      -- A step that nobody cancels is one of the reports.
      obtain rfl : next = generations 1 := by
        have same := congrArg StepReport.outcome
          ((reports false fun _ => false).symm.trans isPlain)
        exact Except.ok.inj same
      have isReport := reports isCancelled cancels
      refine ⟨by rw [isPlain], by rw [isPlain], ?_⟩
      split
      · next early =>
          rw [if_pos (by simpa [or_assoc] using early)] at isReport
          exact ⟨congrArg StepReport.outcome isReport,
            congrArg StepReport.events isReport⟩
      · next late =>
          rw [if_neg (by simpa [or_assoc] using late)] at isReport
          have outcome : report.outcome = .ok (generations 1) :=
            congrArg StepReport.outcome isReport
          have events : report.events = [started, matched, completed] :=
            congrArg StepReport.events isReport
          exact ⟨outcome.trans (congrArg StepReport.outcome isPlain).symm,
            events.trans (congrArg StepReport.events isPlain).symm⟩
  · exact RuleTable.run_of_length_ne count grammar.stepping.batchSize steps start
  · exact grammar.table.run_add grammar.stepping.batchSize globals first second start

set_option maxRecDepth 100000 in
/-- Two steps of `A(2)BA(1)` with `g = 1`, where `A` branches or ends, and the first of
them cancelled by its observer as it starts. -/
theorem run_observed_branching :
    ∃ (grammar : Grammar) (last : Generation) (events : List Event),
      build ["A(x) : x > g -> A(x - 1)[B]",
        "A(x) -> B"] ["g"] .default .default = .ok grammar ∧
      (Word.ofCells [⟨2, [2]⟩, ⟨3, []⟩, ⟨2, [1]⟩]).Compact ∧
      [(1 : Float)].length = grammar.table.globals.length ∧
      let start : Generation := ⟨.ofCells [⟨2, [2]⟩, ⟨3, []⟩, ⟨2, [1]⟩], 7, 5⟩
      grammar.run [1] 2 start = (.ok last, events) ∧ events.length = 6 ∧
      events.head? = some (.started 5 3) ∧
      (grammar.stepWith start [1] false fun event => event == .started 5 3).outcome =
        .error (.cancelled 5) := by
  have accepted : (build ["A(x) : x > g -> A(x - 1)[B]", "A(x) -> B"] ["g"] .default
      .default).isOk = true := by decide +kernel
  cases built :
    build ["A(x) : x > g -> A(x - 1)[B]", "A(x) -> B"] ["g"] .default .default with
  | error => simp [built, Except.isOk, Except.toBool] at accepted
  | ok grammar =>
      let start : Generation := ⟨.ofCells [⟨2, [2]⟩, ⟨3, []⟩, ⟨2, [1]⟩], 7, 5⟩
      have compact : start.word.Compact := Word.compact_ofCells _
      have count : [(1 : Float)].length = grammar.table.globals.length := by
        rw [(sound_of_build built).2]
        rfl
      rcases (run_observed (.built built) compact [1]).1 count with
        ⟨generations, isStart, _, ran, observed⟩
      have cancelled := (observed false fun event => event == .started 5 3).2.2
      rw [if_pos (.inr (.inl (by decide)))] at cancelled
      refine ⟨grammar, _, _, rfl, compact, count, ran 2, rfl, ?_, cancelled.1⟩
      rw [List.range_succ_eq_map, List.flatMap_cons, isStart]
      rfl

end Grammar

end LSystems
