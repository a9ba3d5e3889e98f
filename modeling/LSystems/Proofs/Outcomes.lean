import Mathlib.Data.List.Forall2

/-!
# Outcomes in order

What is known when a row of steps that may fail has come to a result, and what errors it
can end in.
-/

namespace LSystems

variable {ε α β : Type}

theorem bind_eq_ok {outcome : Except ε α} {next : α → Except ε β} {result : β} :
    (outcome >>= next) = .ok result ↔
    ∃ first, outcome = .ok first ∧ next first = .ok result := by
  cases outcome with
  | error => simp [bind, Except.bind]
  | ok first => simp [bind, Except.bind]

theorem map_eq_ok {outcome : Except ε α} {change : α → β} {result : β} :
    outcome.map change = .ok result ↔
    ∃ first, outcome = .ok first ∧ change first = result := by
  cases outcome with
  | error => simp [Except.map]
  | ok first => simp [Except.map]

theorem mapError_eq_ok {ε' : Type} {outcome : Except ε α} {change : ε → ε'} {result : α} :
    outcome.mapError change = .ok result ↔ outcome = .ok result := by
  cases outcome with
  | error => simp [Except.mapError]
  | ok first => simp [Except.mapError]

theorem pure_eq_ok {value result : α} : (pure value : Except ε α) = .ok result ↔
    value = result := by
  simp [pure, Except.pure]

theorem forall₂_of_mapM {meaning : α → Except ε β} {values : List α} {results : List β}
    (done : values.mapM meaning = .ok results) :
    List.Forall₂ (fun value result => meaning value = .ok result) values results := by
  induction values generalizing results with
  | nil =>
      rw [List.mapM_nil, pure_eq_ok] at done
      exact done ▸ .nil
  | cons value rest induction =>
      simp only [List.mapM_cons, bind_eq_ok, pure_eq_ok] at done
      obtain ⟨first, isFirst, further, areFurther, rfl⟩ := done
      exact .cons isFirst (induction areFurther)

/-- Steps that all succeed give a row of results, one for each of the goals that their
values are related to. -/
theorem exists_mapM {γ : Type} {meaning : α → Except ε β} {relates : α → γ → Prop}
    {reaches : β → γ → Prop} {values : List α} {goals : List γ}
    (related : List.Forall₂ relates values goals)
    (step : ∀ goal ∈ goals, ∀ value, relates value goal →
      ∃ result, meaning value = .ok result ∧ reaches result goal) :
    ∃ results, values.mapM meaning = .ok results ∧
      List.Forall₂ reaches results goals := by
  induction related with
  | nil => exact ⟨[], rfl, .nil⟩
  | cons isFirst _ induction =>
      rcases List.forall_mem_cons.mp step with ⟨first, further⟩
      rcases first _ isFirst with ⟨result, isResult, reached⟩
      rcases induction further with ⟨results, areResults, all⟩
      refine ⟨result :: results, ?_, .cons reached all⟩
      rw [List.mapM_cons, isResult, areResults]
      rfl

theorem exists_of_mem_mapM {meaning : α → Except ε β} {values : List α} {results : List β}
    (done : values.mapM meaning = .ok results) {result : β} (member : result ∈ results) :
    ∃ value ∈ values, meaning value = .ok result := by
  obtain ⟨place, inside, rfl⟩ := List.mem_iff_getElem.mp member
  have related := forall₂_of_mapM done
  have alsoInside : place < values.length := related.length_eq ▸ inside
  exact ⟨values[place], List.getElem_mem alsoInside, related.get alsoInside inside⟩

theorem mapM_eq_some {step : α → Option β} {result : α → β} {values : List α}
    (succeeds : ∀ value ∈ values, step value = some (result value)) :
    values.mapM step = some (values.map result) := by
  induction values with
  | nil => rfl
  | cons value rest induction =>
      obtain ⟨head, further⟩ := List.forall_mem_cons.mp succeeds
      simp [head, induction further]

/-! ## Errors of a kind -/

structure ErrorsAre (kind : ε → Prop) (outcome : Except ε α) : Prop where
  of_eq : ∀ error, outcome = .error error → kind error

namespace ErrorsAre

variable {kind : ε → Prop}

theorem ok (result : α) : ErrorsAre kind (.ok result : Except ε α) :=
  ⟨nofun⟩

theorem error {fault : ε} (isKind : kind fault) :
    ErrorsAre kind (.error fault : Except ε α) :=
  ⟨fun _ failed => Except.error.inj failed ▸ isKind⟩

theorem throw {fault : ε} (isKind : kind fault) :
    ErrorsAre kind (MonadExcept.throw fault : Except ε α) :=
  error isKind

theorem stop {fault : ε} (isKind : kind fault) (next : α → Except ε β) :
    ErrorsAre kind ((MonadExcept.throw fault : Except ε α) >>= next) :=
  error isKind

theorem bind {outcome : Except ε α} {next : α → Except ε β}
    (first : ErrorsAre kind outcome)
    (further : ∀ result, outcome = .ok result → ErrorsAre kind (next result)) :
    ErrorsAre kind (outcome >>= next) := by
  cases outcome with
  | error fault => exact error (first.of_eq fault rfl)
  | ok result => exact further result rfl

theorem map {outcome : Except ε α} (first : ErrorsAre kind outcome) (change : α → β) :
    ErrorsAre kind (outcome.map change) := by
  cases outcome with
  | error fault => exact error (first.of_eq fault rfl)
  | ok result => exact ok _

theorem mapError {outcome : Except ε α} (first : ErrorsAre kind outcome) {change : ε → ε}
    (keeps : ∀ fault, kind fault → kind (change fault)) :
    ErrorsAre kind (outcome.mapError change) := by
  cases outcome with
  | error fault => exact error (keeps fault (first.of_eq fault rfl))
  | ok result => exact ok _

theorem mapM {meaning : α → Except ε β} {values : List α}
    (each : ∀ value ∈ values, ErrorsAre kind (meaning value)) :
    ErrorsAre kind (values.mapM meaning) := by
  induction values with
  | nil => exact ok _
  | cons value rest induction =>
      rcases List.forall_mem_cons.mp each with ⟨first, further⟩
      rw [List.mapM_cons]
      exact bind first fun _ _ => bind (induction further) fun _ _ => ok _

theorem forM {meaning : α → Except ε PUnit}
    (each : ∀ value, ErrorsAre kind (meaning value)) (values : List α) :
    ErrorsAre kind (values.forM meaning) := by
  induction values with
  | nil => exact ok _
  | cons value rest induction => exact bind (each value) fun _ _ => induction

theorem mono {wider : ε → Prop} {outcome : Except ε α} (errors : ErrorsAre kind outcome)
    (contained : ∀ fault, kind fault → wider fault) : ErrorsAre wider outcome :=
  ⟨fun fault failed => contained fault (errors.of_eq fault failed)⟩

end ErrorsAre

end LSystems
