import LSystems.Proofs.Derivation.Fill

/-!
# Steps

A step of a grammar on a word that was made by its operations always succeeds, and the
new word is what the positions of the old one become, one after another. Neither the
size of the batches nor the order of the writes changes that. Main statement:
`Grammar.step_eq`.
-/

namespace LSystems

/-- Words that come from symbols, from cells, from a text, or from a step of a grammar. -/
inductive Word.Made : Word → Prop
  | ofSymbols (symbols : List Symbol) : Made (.ofSymbols symbols)
  | ofCells (cells : List Cell) : Made (.ofCells cells)
  | ofRows {symbols rows word} : Word.ofRows symbols rows = .ok word → Made word
  | parsed {grammar : Grammar} {text word} :
      (grammar.parseInitial text).1 = .ok word → Made word
  | stepped {rules names compiler stepping grammar generation globals next} :
      Grammar.build rules names compiler stepping = .ok grammar → Made generation.word →
      grammar.step generation globals = .ok next → Made next.word

namespace RuleTable

variable {table : RuleTable} {word : Word} {globals : List Float}
    {seed : UInt64} {step : Nat}

theorem stepWith_eq (sound : table.Sound) (compact : word.Compact)
    (count : globals.length = table.globals.length) (batchSize : Nat)
    {segments : List (List Cell)} (length : segments.length = word.size)
    (become : table.BecomeFrom word globals seed step 0 segments) :
    (∃ batches writes, table.plan? batchSize word globals seed step = some batches ∧
      (Batch.place batches).writes? table word globals = some writes ∧
      (Batch.place batches).blank =
        .blank segments.flatten.length (Cell.width segments.flatten) ∧
      writes.flatten = Cell.writesFrom 0 0 segments.flatten) ∧
    (table.stepWith batchSize ⟨word, seed, step⟩ globals false fun _ => false).outcome =
      .ok ⟨.ofCells segments.flatten, seed, step + 1⟩ := by
  obtain ⟨batches, parts, planned, makes, rfl⟩ :=
    plan?_eq sound compact count batchSize length become
  obtain ⟨placed, isPlace, isPlaced⟩ := Batch.place_eq makes
  obtain ⟨writes, written, flat⟩ := Batch.Placement.writes?_eq isPlaced
  have sameCells : (parts.map List.flatten).flatten = parts.flatten.flatten :=
    List.flatten_flatten.symm
  rw [sameCells] at written flat
  rw [← isPlace] at written
  have blank : (Batch.place batches).blank =
      .blank parts.flatten.flatten.length (Cell.width parts.flatten.flatten) := by
    rw [isPlace]
    rfl
  refine ⟨⟨batches, writes, planned, written, blank, flat⟩, ?_⟩
  have made : (Batch.place batches).word? table word globals =
      some (.ofCells parts.flatten.flatten) := by
    rw [Batch.Placement.word?, written, blank]
    simp only [Option.bind_eq_bind, Option.bind_some, flat, Word.foldl_assign_blank,
      Option.pure_def]
  simp [stepWith, count, planned, made]

end RuleTable

theorem Word.Made.compact {word : Word} (made : word.Made) : word.Compact := by
  induction made with
  | ofSymbols symbols => exact compact_ofSymbols symbols
  | ofCells cells => exact compact_ofCells cells
  | @ofRows symbols rows word done =>
      rw [Word.ofRows] at done
      split at done
      · cases done
        exact compact_ofCells _
      · contradiction
  | @parsed grammar text word done =>
      simp only [Grammar.parseInitial, Alphabet.parseInitial, Alphabet.readWord,
        Alphabet.take] at done
      obtain ⟨emissions, _, rfl⟩ := map_eq_ok.mp done
      exact compact_ofCells _
  | @stepped rules names compiler stepping grammar generation globals next built
      _ stepped compact =>
      obtain ⟨sound, _⟩ := Grammar.sound_of_build built
      obtain ⟨word, seed, step⟩ := generation
      by_cases count : globals.length = grammar.table.globals.length
      · obtain ⟨segments, length, become⟩ := RuleTable.exists_becomeFrom sound
        have made :=
          (RuleTable.stepWith_eq sound compact count grammar.stepping.batchSize
            length become).2
        rw [Grammar.step, Grammar.stepWith, made] at stepped
        cases stepped
        exact compact_ofCells _
      · simp [Grammar.step, Grammar.stepWith, RuleTable.stepWith, count] at stepped

namespace Grammar

/-- A step of a grammar that has been built, on a word that was made, with a value for
every global parameter. It succeeds, and its word is what the positions become, in
order, under the same seed. The batches do not matter. In each phase everything that is
read is there; the writes are to every slot of the new word once, so that workers may
carry them out in any order. -/
theorem step_eq {rules names : List String} {compiler : CompilerSettings}
    {stepping : SteppingSettings} {grammar : Grammar}
    (built : build rules names compiler stepping = .ok grammar) {generation : Generation}
    (made : generation.word.Made) {globals : List Float}
    (count : globals.length = names.length) :
    ∃ segments : List (List Cell),
      segments.length = generation.word.size ∧
      (∀ position cells, segments[position]? = some cells →
        grammar.table.Becomes generation.word globals generation.seed
        generation.step position
          cells) ∧
      let next : Generation :=
        ⟨.ofCells segments.flatten, generation.seed, generation.step + 1⟩
      grammar.step generation globals = .ok next ∧
      ∀ batchSize : Nat,
        (grammar.table.stepWith batchSize generation globals false
          fun _ => false).outcome =
          .ok next ∧
        ∃ batches writes,
          grammar.table.plan? batchSize generation.word globals generation.seed
            generation.step =
            some batches ∧
          (Batch.place batches).writes? grammar.table generation.word globals =
            some writes ∧
          (writes.flatten.map Write.slot).Perm next.word.slots ∧ next.word.slots.Nodup ∧
          ∀ order : List Write, order.Perm writes.flatten →
            order.foldl Word.assign (Batch.place batches).blank = next.word := by
  obtain ⟨sound, declared⟩ := sound_of_build built
  rw [← declared] at count
  obtain ⟨word, seed, step⟩ := generation
  obtain ⟨segments, length, become⟩ : ∃ segments, segments.length = word.size ∧
      grammar.table.BecomeFrom word globals seed step 0 segments :=
    RuleTable.exists_becomeFrom sound
  have stepped := fun batchSize =>
    RuleTable.stepWith_eq sound made.compact count batchSize length become
  refine ⟨segments, length, ?_, (stepped _).2, fun batchSize => ?_⟩
  · intro position cells found
    rw [← Nat.zero_add position]
    exact become position cells found
  obtain ⟨⟨batches, writes, planned, written, blank, flat⟩, outcome⟩ := stepped batchSize
  have once : (writes.flatten.map Write.slot).Perm
      (Word.ofCells segments.flatten).slots := by
    rw [flat, Word.slots_ofCells]
    exact Word.perm_slots_writesFrom segments.flatten 0 0
  have distinct : (Word.ofCells segments.flatten).slots.Nodup := Word.nodup_slotsFrom ..
  refine ⟨outcome, batches, writes, planned, written, once, distinct,
    fun order isOrder => ?_⟩
  rw [Word.foldl_assign_perm (once.nodup_iff.mpr distinct) isOrder, flat, blank,
    Word.foldl_assign_blank]

set_option maxRecDepth 100000 in
/-- A step of `A(2)BA(1)` with `g = 1`, where `A` branches or ends. -/
theorem step_eq_branching :
    ∃ (grammar : Grammar) (segments : List (List Cell)),
      build ["A(x) : x > g -> A(x - 1)[B]",
        "A(x) -> B"] ["g"] .default .default = .ok grammar ∧
      (Word.ofCells [⟨2, [2]⟩, ⟨3, []⟩, ⟨2, [1]⟩]).Made ∧ segments.length = 3 ∧
      grammar.step ⟨.ofCells [⟨2, [2]⟩, ⟨3, []⟩, ⟨2, [1]⟩], 7, 0⟩ [1] =
        .ok ⟨.ofCells segments.flatten, 7, 1⟩ := by
  have accepted : (build ["A(x) : x > g -> A(x - 1)[B]", "A(x) -> B"] ["g"] .default
      .default).isOk = true := by decide +kernel
  cases built :
    build ["A(x) : x > g -> A(x - 1)[B]", "A(x) -> B"] ["g"] .default .default with
  | error => simp [built, Except.isOk, Except.toBool] at accepted
  | ok grammar =>
      let start : Generation := ⟨.ofCells [⟨2, [2]⟩, ⟨3, []⟩, ⟨2, [1]⟩], 7, 0⟩
      have made : start.word.Made := .ofCells _
      have count : [(1 : Float)].length = ["g"].length := rfl
      obtain ⟨segments, length, _, stepped, _⟩ := step_eq built made count
      exact ⟨grammar, segments, rfl, made, length, stepped⟩

end Grammar

end LSystems
