import LSystems.Proofs.Derivation.Decide

/-!
# Rules that are used

The first phase of a step uses at every position the rule that is found there, and
collects what the rule has captured. The batches, the buffer and the draws have no part
in it. Main statement: `RuleTable.uses_of_plan?`.
-/

namespace LSystems

def Decision.use? (pool : Array Float) (decision : Decision) :
    Option (Nat × Option (List Float)) :=
  match decision.action with
  | .rewrite rule _ captured => some (rule, captured.part? pool)
  | _ => none

theorem Decision.isSome_use? (pool : Array Float) (decision : Decision) :
    (decision.use? pool).isSome = decision.isRewrite := by
  unfold use? isRewrite
  cases decision.action with
  | rewrite => rfl
  | keep | absorbed => rfl

def Batch.uses (batch : Batch) : List (Option (Nat × Option (List Float))) :=
  batch.decisions.map (Decision.use? batch.pool)

namespace RuleTable

/-- What is found at a position, as a decision would use it. -/
def useAt (table : RuleTable) (word : Word) (globals : List Float) (position : Nat) :
    Option (Nat × Option (List Float)) :=
  (table.find? (table.scene word) globals position).map fun (rule, captured) =>
    (rule.id, some captured)

variable {table : RuleTable} {word : Word} {globals : List Float} {seed : UInt64}
  {step position : Nat}

theorem use?_append {pool : Array Float} {decision : Decision}
    (uses : decision.use? pool = table.useAt word globals position) (more : List Float) :
    decision.use? (pool ++ more) = table.useAt word globals position := by
  rw [← uses]
  cases isAction : decision.action with
  | keep => simp only [Decision.use?, isAction]
  | absorbed => simp only [Decision.use?, isAction]
  | rewrite rule outcome captured =>
      simp only [Decision.use?, isAction] at uses ⊢
      rcases Option.map_eq_some_iff.mp uses.symm with ⟨_, _, equal⟩
      have isPart : captured.part? pool = some _ := (congrArg Prod.snd equal).symm
      rw [isPart, Span.part?_append isPart more]

theorem find?_of_searchRules? (sound : table.Sound) (compact : word.Compact)
    (count : globals.length = table.globals.length) {symbol : Symbol}
    (isSymbol : (table.scene word).symbol? position = some symbol)
    {buffer rest : List Float} {found : Option Rule}
    (searched : searchRules? (table.scene word) globals position
      (table.candidates symbol) buffer = some (found, rest)) :
    table.find? (table.scene word) globals position = found.map fun rule =>
      (rule, rest) := by
  have candidates : ∀ rule ∈ table.candidates symbol, rule.Sound globals.length := by
    intro rule isCandidate
    rw [count]
    exact sound.rule rule (sound.ranked rule (List.mem_of_mem_filter isCandidate))
  have sceneCompact : (table.scene word).word.Compact := compact
  have known :
      ∃ stale, searchRules? (table.scene word) globals position (table.candidates symbol)
      buffer = _ := searchRules?_eq sceneCompact candidates buffer
  rcases known with ⟨stale, known⟩
  rw [searched] at known
  rw [find?, isSymbol]
  dsimp only
  split at known
  · next none =>
      rw [none]
      cases known
      rfl
  · next isFound =>
      rw [isFound]
      cases known
      rfl

theorem use?_of_add? (sound : table.Sound) (compact : word.Compact)
    (count : globals.length = table.globals.length) {draft next : Draft}
    (added : draft.add? table (table.scene word) globals seed step position = some next) :
    ∃ decision captured, next.decisions = draft.decisions.push decision ∧
      next.pool = draft.pool ++ (captured : List Float) ∧
      decision.use? next.pool = table.useAt word globals position := by
  simp only [Draft.add?, Option.bind_eq_bind, Option.bind_eq_some_iff] at added
  rcases added with ⟨symbol, isSymbol, ⟨found, buffer⟩, searched, added⟩
  rw [useAt, find?_of_searchRules? sound compact count isSymbol searched]
  cases found with
  | none =>
      rcases Option.bind_eq_some_iff.mp added with ⟨place, _, isNext⟩
      cases isNext
      exact ⟨_, [], rfl, by simp, rfl⟩
  | some rule =>
      rcases Option.bind_eq_some_iff.mp added with ⟨outcome, _, isNext⟩
      cases isNext
      refine ⟨_, buffer, rfl, rfl, ?_⟩
      simp [Decision.use?, Decision.rewritten, Span.part?_append_new]

theorem uses_of_foldlM (sound : table.Sound) (compact : word.Compact)
    (count : globals.length = table.globals.length) {positions : List Nat}
    {draft last : Draft}
    (folded :
      positions.foldlM (Draft.add? table (table.scene word) globals seed step) draft =
      some last) :
    ∃ decisions captured, last.decisions.toList = draft.decisions.toList ++ decisions ∧
      last.pool = draft.pool ++ (captured : List Float) ∧
      decisions.map (Decision.use? last.pool) =
        positions.map (table.useAt word globals) := by
  induction positions generalizing draft with
  | nil =>
      cases folded
      exact ⟨[], [], by simp, by simp, rfl⟩
  | cons position positions induction =>
      rw [List.foldlM_cons] at folded
      rcases Option.bind_eq_some_iff.mp folded with ⟨next, added, folded⟩
      rcases use?_of_add? sound compact count added with
        ⟨decision, first, isNext, pool, uses⟩
      rcases induction folded with ⟨decisions, further, isLast, lastPool, rest⟩
      refine ⟨decision :: decisions, first ++ further, ?_, ?_, ?_⟩
      · rw [isLast, isNext, Array.toList_push, List.append_assoc, List.singleton_append]
      · rw [lastPool, pool, Word.appendList_appendList]
      · have kept := use?_append uses further
        rw [← lastPool] at kept
        rw [List.map_cons, List.map_cons, kept, rest]

theorem uses_of_mapM_batch? (sound : table.Sound) (compact : word.Compact)
    (count : globals.length = table.globals.length) {ranges : List (Nat × Nat)}
    {start stop : Nat} (consecutive : Batch.Consecutive start stop ranges)
    {batches : List Batch} (decided : (ranges.mapM fun (first, length) =>
      table.batch? (table.scene word) globals seed step first length) = some batches) :
    batches.flatMap Batch.uses =
      (List.range' start (stop - start)).map (table.useAt word globals) := by
  induction ranges generalizing start batches with
  | nil =>
      cases decided
      have equal : start = stop := consecutive
      rw [equal, Nat.sub_self]
      rfl
  | cons range ranges induction =>
      rcases range with ⟨first, length⟩
      rcases consecutive with ⟨rfl, further⟩
      have fits := further.le
      simp only [List.mapM_cons, Option.bind_eq_bind, Option.bind_eq_some_iff] at decided
      rcases decided with ⟨batch, isBatch, rest, areRest, equal⟩
      cases equal
      rcases Option.bind_eq_some_iff.mp isBatch with ⟨draft, folded, isBatch⟩
      cases isBatch
      rcases uses_of_foldlM sound compact count folded with
        ⟨decisions, _, areDecisions, _, uses⟩
      have here : (Batch.ofDecisions first draft.decisions.toList draft.pool).uses =
          (List.range' first length).map (table.useAt word globals) := by
        rw [← uses, areDecisions]
        rfl
      have split : stop - first = length + (stop - (first + length)) := by omega
      rw [List.flatMap_cons, induction further areRest, here, split,
        ← List.range'_append_1, List.map_append]

theorem uses_of_plan? (sound : table.Sound) (compact : word.Compact)
    (count : globals.length = table.globals.length) {batchSize : Nat}
    {batches : List Batch}
    (planned : table.plan? batchSize word globals seed step = some batches) :
    batches.flatMap Batch.uses =
      (List.range word.size).map (table.useAt word globals) := by
  have uses := uses_of_mapM_batch? sound compact count
    (Batch.consecutive_ranges batchSize word.size) planned
  rwa [Nat.sub_zero, ← List.range_eq_range'] at uses

end RuleTable

end LSystems
