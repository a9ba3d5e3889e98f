import LSystems.Proofs.Derivation.Place

/-!
# Writing

Placed batches read nothing that is not there and write into their own parts of the new
word only. All writes together fill every slot once, so that their order does not
matter, and give the word of the cells that the batches make.
-/

namespace LSystems

/-! ## Writes of cells in a row -/

def Cell.writesFrom (slot first : Nat) : List Cell → List Write
  | [] => []
  | cell :: cells =>
    cell.writes slot ⟨first, cell.parameters.length⟩ first ++
      writesFrom (slot + 1) (first + cell.parameters.length) cells

theorem Cell.writesFrom_append (slot first : Nat) (front back : List Cell) :
    writesFrom slot first (front ++ back) =
      writesFrom slot first front ++
        writesFrom (slot + front.length) (first + width front) back := by
  induction front generalizing slot first with
  | nil => rfl
  | cons cell cells induction =>
      simp [writesFrom, induction, Nat.add_assoc, Nat.add_comm 1]

/-! ## Regions -/

namespace Region

def regionsFrom (symbol parameter : Nat) : List Batch → List (Batch × Region)
  | [] => []
  | batch :: batches =>
    (batch, ⟨⟨symbol, batch.symbolCount⟩, ⟨parameter, batch.parameterCount⟩⟩) ::
      regionsFrom (symbol + batch.symbolCount) (parameter + batch.parameterCount) batches

end Region

section Batches

variable {table : RuleTable} {word : Word} {globals : List Float}

theorem Region.Division.foldlM_add? {base : Nat} {batches : List Batch}
    {parts : List (List Cell)}
    (placed : Batch.Placed table word globals base batches parts)
    (before : Array (Batch × Region)) (symbol parameter : Nat) :
    ∃ rest, batches.foldlM Division.add?
        ⟨before, ⟨⟨symbol, parts.flatten.length⟩,
          ⟨parameter, Cell.width parts.flatten⟩⟩⟩ =
      some ⟨before ++ regionsFrom symbol parameter batches, rest⟩ := by
  induction placed generalizing before symbol parameter with
  | nil => exact ⟨⟨⟨symbol, 0⟩, ⟨parameter, 0⟩⟩, by simp [regionsFrom]⟩
  | @cons _ batch batches segments parts _ symbols parameters _ _ induction =>
      obtain ⟨rest, folded⟩ := induction
        (before.push (batch,
          ⟨⟨symbol, batch.symbolCount⟩, ⟨parameter, batch.parameterCount⟩⟩))
        (symbol + batch.symbolCount) (parameter + batch.parameterCount)
      refine ⟨rest, ?_⟩
      rw [List.foldlM_cons, add?, split?, split?]
      simp only [List.flatten_cons, List.length_append, Cell.width_append,
        symbols, parameters]
      simp only [Nat.le_add_right, if_true, Option.bind_eq_bind, Option.bind_some,
        Nat.add_sub_cancel_left, Option.pure_def]
      simpa [regionsFrom, symbols, parameters] using folded

/-! ## Writing batches -/

namespace Writing

def after (region : Region) (writing : Writing) (cells : List Cell) : Writing where
  writes := writing.writes ++ Cell.writesFrom (region.symbols.offset + writing.symbols)
    (region.parameters.offset + writing.parameters) cells
  symbols := writing.symbols + cells.length
  parameters := writing.parameters + Cell.width cells

def Fits (region : Region) (writing : Writing) (cells : List Cell) : Prop :=
  writing.symbols + cells.length ≤ region.symbols.length ∧
    writing.parameters + Cell.width cells ≤ region.parameters.length

variable {region : Region} {writing : Writing} {front back : List Cell} {base : Nat}

theorem after_nil : writing.after region [] = writing := by
  simp [after, Cell.writesFrom]

theorem after_append :
    writing.after region (front ++ back) =
      (writing.after region front).after region back := by
  simp [after, Cell.writesFrom_append, Nat.add_assoc, Word.appendList_appendList]

theorem fits_append :
    writing.Fits region (front ++ back) ↔
      writing.Fits region front ∧ (writing.after region front).Fits region back := by
  simp only [Fits, after, List.length_append, Cell.width_append]
  omega

theorem add?_eq (starts : base = region.parameters.offset) {cell : Cell}
    (fits : writing.Fits region [cell]) :
    add? region base writing cell = some (writing.after region [cell]) := by
  obtain ⟨symbols, parameters⟩ := fits
  simp only [List.length_singleton, Cell.width_cons, Cell.width_nil] at symbols parameters
  rw [add?, if_pos (by omega)]
  simp [after, Cell.writesFrom, starts]

theorem foldlM_add? (starts : base = region.parameters.offset) {cells : List Cell}
    (fits : writing.Fits region cells) :
    cells.foldlM (add? region base) writing = some (writing.after region cells) := by
  induction cells generalizing writing with
  | nil => rw [List.foldlM_nil, after_nil, Option.pure_def]
  | cons cell cells induction =>
      rw [← List.singleton_append] at fits ⊢
      obtain ⟨first, further⟩ := fits_append.mp fits
      rw [after_append, ← induction further, List.singleton_append, List.foldlM_cons,
        add?_eq starts first, Option.bind_eq_bind, Option.bind_some]

theorem foldlM_decisions {pool : Array Float} {start position : Nat}
    {decisions : List Decision} {segments : List (List Cell)}
    (makes : Decision.MakeFrom table word globals pool position decisions segments)
    (starts : base = region.parameters.offset) {index : Nat}
    (isPosition : start + index = position)
    (fits : writing.Fits region segments.flatten) :
    (decisions.zipIdx index).foldlM
        (fun writing (decision, index) => do
          let cells ← decision.cells? table word globals pool (start + index)
          cells.foldlM (add? region base) writing) writing =
      some (writing.after region segments.flatten) := by
  induction makes generalizing index writing with
  | nil => rw [List.flatten_nil, after_nil]; rfl
  | @cons _ decision _ made segments head _ induction =>
      obtain ⟨first, further⟩ := fits_append.mp fits
      have isNext : start + (index + 1) = _ + 1 := congrArg Nat.succ isPosition
      rw [List.flatten_cons, after_append, ← induction isNext further, List.zipIdx_cons,
        List.foldlM_cons]
      simp only [isPosition, head.cells?, Option.bind_eq_bind, Option.bind_some,
        foldlM_add? starts first]

end Writing

theorem Batch.writes?_eq {batch : Batch} {segments : List (List Cell)}
    (makes : batch.Makes table word globals segments) {region : Region}
    (starts : batch.parameterBase = region.parameters.offset)
    (symbols : region.symbols.length = segments.flatten.length)
    (parameters : region.parameters.length = Cell.width segments.flatten) :
    batch.writes? table word globals region =
      some (Cell.writesFrom region.symbols.offset region.parameters.offset
        segments.flatten) := by
  have fits : Writing.Fits region ⟨#[], 0, 0⟩ segments.flatten := by
    simp [Writing.Fits, symbols, parameters]
  rw [writes?, Writing.foldlM_decisions makes starts (Nat.add_zero _) fits]
  simp [Writing.after]

theorem Batch.Placed.mapM_writes? {base : Nat} {batches : List Batch}
    {parts : List (List Cell)}
    (placed : Batch.Placed table word globals base batches parts) (symbol : Nat) :
    ∃ writes, (Region.regionsFrom symbol base batches).mapM (fun (batch, region) =>
        batch.writes? table word globals region) = some writes ∧
      writes.flatten = Cell.writesFrom symbol base parts.flatten := by
  induction placed generalizing symbol with
  | nil => exact ⟨[], rfl, rfl⟩
  | @cons base batch batches segments parts makes symbols parameters starts _ induction =>
      obtain ⟨writes, areWrites, flat⟩ := induction (symbol + batch.symbolCount)
      let region : Region := ⟨⟨symbol, batch.symbolCount⟩, ⟨base, batch.parameterCount⟩⟩
      have first : batch.writes? table word globals region =
          some (Cell.writesFrom symbol base segments.flatten) :=
        Batch.writes?_eq makes starts symbols parameters
      refine ⟨Cell.writesFrom symbol base segments.flatten :: writes, ?_, ?_⟩
      · rw [Region.regionsFrom, List.mapM_cons, areWrites]
        simp only [region] at first
        simp [first]
      · rw [List.flatten_cons, flat, List.flatten_cons, Cell.writesFrom_append,
          symbols, parameters]

theorem Batch.Placement.writes?_eq {batches : List Batch} {parts : List (List Cell)}
    (placed : Batch.Placed table word globals 0 batches parts) :
    ∃ writes, writes? table word globals
        ⟨batches.toArray, 0, parts.flatten.length,
          Cell.width parts.flatten⟩ = some writes ∧
      writes.flatten = Cell.writesFrom 0 0 parts.flatten := by
  obtain ⟨rest, divided⟩ := Region.Division.foldlM_add? placed #[] 0 0
  obtain ⟨writes, areWrites, flat⟩ := placed.mapM_writes? 0
  refine ⟨writes, ?_, flat⟩
  rw [Placement.writes?]
  simp only [divided, Option.bind_eq_bind, Option.bind_some]
  simpa using areWrites

end Batches

end LSystems
