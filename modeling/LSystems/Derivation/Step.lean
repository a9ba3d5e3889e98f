import LSystems.Derivation.Decide
import LSystems.Derivation.Write

/-!
# Steps

A step rewrites every position of a generation at once. An observer is told what
happens, and may cancel the step until all positions are matched; the new generation
exists only when the step completes.
-/

namespace LSystems

structure Generation where
  word : Word
  seed : UInt64
  step : Nat

inductive Event
  /-- A step starts from a word of this length. -/
  | started (step length : Nat)
  /-- All positions are matched, and this many will be rewritten. -/
  | matched (step rewritten : Nat)
  /-- The step has led to a word of this length. -/
  | completed (step length : Nat)
deriving DecidableEq, Repr

structure StepReport where
  outcome : Except Error Generation
  events : List Event
  isCancelled : Bool

namespace RuleTable

def rewrittenCount (batches : List Batch) : Nat :=
  (batches.flatMap Batch.decisions).countP Decision.isRewrite

/-- The error of a step that has left the rows it works on. No step of a grammar comes
to it. -/
def outOfRange : Error :=
  .malformedWord .outOfRange

/-- Steps a generation. The step counts as cancelled when `isCancelled` says so at its
start, or once the observer has cancelled it at an event. -/
def stepWith (table : RuleTable) (batchSize : Nat) (generation : Generation)
    (globals : List Float) (isCancelled : Bool) (cancels : Event → Bool) : StepReport :=
  if globals.length ≠ table.globals.length then
    ⟨.error (.parameterCount table.globals.length globals.length), [], isCancelled⟩
  else
    let ⟨word, seed, step⟩ := generation
    let started := Event.started step word.size
    let isCancelled := isCancelled || cancels started
    match table.plan? batchSize word globals seed step with
    | none => ⟨.error outOfRange, [started], isCancelled⟩
    | some batches =>
      let matched := Event.matched step (rewrittenCount batches)
      let isCancelled := isCancelled || cancels matched
      if isCancelled then ⟨.error (.cancelled step), [started, matched], true⟩
      else
        match (Batch.place batches).word? table word globals with
        | none => ⟨.error outOfRange, [started, matched], false⟩
        | some next =>
          let completed := Event.completed step next.size
          ⟨.ok ⟨next, seed, step + 1⟩, [started, matched, completed], cancels completed⟩

def run (table : RuleTable) (batchSize : Nat) (globals : List Float) :
    (steps : Nat) → Generation → Except Error Generation × List Event
  | 0, generation => (.ok generation, [])
  | steps + 1, generation =>
    let report := table.stepWith batchSize generation globals false fun _ => false
    match report.outcome with
    | .error error => (.error error, report.events)
    | .ok next =>
      let (outcome, events) := run table batchSize globals steps next
      (outcome, report.events ++ events)

end RuleTable

end LSystems
