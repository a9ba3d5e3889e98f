import LSystems.Proofs.Balance
import LSystems.Proofs.Brackets

/-!
# Pairs around balanced rows

An opening and a closing bracket are partners exactly if the symbols between them are
balanced, whatever stands in front of them and behind them. Main statement:
`BracketTable.joins_iff`.
-/

namespace LSystems.BracketTable

variable {branches : BranchPair Symbol} {read : List Symbol}

namespace Progress

variable {progress : Progress}

/-! ## What partners enclose -/

/-- As many brackets are left open behind an open one as are further inside, and none
between partners. -/
structure Encloses (branches : BranchPair Symbol) (read : List Symbol)
    (progress : Progress) : Prop where
  sound : Sound branches read progress
  opened : ∀ depth position, progress.opened[depth]? = some position →
    branches.depth? 0 (read.drop (position + 1)) = some depth
  joined : ∀ first second, progress.Joins first second →
    branches.depth? 0 ((read.take second).drop (first + 1)) = some 0

theorem encloses_start (branches : BranchPair Symbol) : Encloses branches [] start where
  sound := sound_start branches
  opened := nofun
  joined := fun _ _ joins => absurd joins.second_lt (Nat.not_lt_zero _)

private theorem Encloses.depth?_behind (encloses : Encloses branches read progress)
    {depth position : Nat} (isOpened : progress.opened[depth]? = some position)
    (symbol : Symbol) :
    branches.depth? 0 ((read ++ [symbol]).drop (position + 1)) =
      branches.depth? depth [symbol] := by
  have inside : position + 1 ≤ read.length := by
    have isOpening :=
      (encloses.sound.opened_eq position (List.mem_of_getElem? isOpened)).1
    exact (List.getElem?_eq_some_iff.mp isOpening).1
  rw [List.drop_append_of_le_length inside, BranchPair.depth?_append,
    encloses.opened depth position isOpened, Option.bind_some]

theorem Encloses.step (encloses : Encloses branches read progress) (symbol : Symbol) :
    Encloses branches (read ++ [symbol]) (progress.step branches symbol) where
  sound := encloses.sound.step symbol
  opened := by
    intro depth position
    unfold Progress.step
    split
    · next isOpening =>
        cases depth with
        | zero =>
            rintro ⟨⟩
            rw [encloses.sound.size_eq, List.drop_of_length_le (by simp)]
            rfl
        | succ depth =>
            intro isOpened
            rw [encloses.depth?_behind isOpened]
            simp [BranchPair.depth?, isOpening]
    · next notOpening =>
        split
        · next isClosing =>
            split
            · next empty => simp [empty]
            · next innermost opened isOpened =>
                intro isOpen
                have before : progress.opened[depth + 1]? = some position := by
                  rw [isOpened]
                  exact isOpen
                rw [encloses.depth?_behind before, BranchPair.depth?, if_neg notOpening,
                  if_pos isClosing]
                rfl
        · next notClosing =>
            intro isOpened
            rw [encloses.depth?_behind isOpened, BranchPair.depth?, if_neg notOpening,
              if_neg notClosing]
            rfl
  joined := by
    intro first second joins
    have before : second ≤ read.length := by
      have lt := joins.second_lt
      rw [(encloses.sound.step symbol).size_eq, List.length_append] at lt
      exact Nat.le_of_lt_succ lt
    rw [List.take_append_of_le_length before]
    rcases (encloses.sound.joins_step symbol first second).mp joins with
      old | ⟨_, _, isOpen, rfl⟩
    · exact encloses.joined first second old
    · rw [encloses.sound.size_eq, List.take_length]
      exact encloses.opened 0 first (List.head?_eq_getElem? ▸ isOpen)

theorem Encloses.foldl (symbols : List Symbol)
    (encloses : Encloses branches read progress) :
    Encloses branches (read ++ symbols)
      (symbols.foldl (Progress.step branches) progress) := by
  induction symbols generalizing read progress with
  | nil => rwa [List.append_nil]
  | cons symbol rest induction =>
      have further := induction (encloses.step symbol)
      rwa [List.append_assoc, List.singleton_append] at further

/-! ## Who closes a bracket -/

theorem Sound.joins_foldl (sound : Sound branches read progress) (symbols : List Symbol)
    {first second : Nat} (joins : progress.Joins first second) :
    (symbols.foldl (Progress.step branches) progress).Joins first second := by
  induction symbols generalizing read progress with
  | nil => exact joins
  | cons symbol rest induction =>
      exact induction (sound.step symbol)
        ((sound.joins_step symbol first second).mpr (.inl joins))

theorem exists_opened_foldl {row : List Symbol} {own rest : List Nat} {depth : Nat}
    (isOpened : progress.opened = own ++ rest)
    (found : branches.depth? own.length row = some depth) :
    ∃ last : List Nat, last.length = depth ∧
      (row.foldl (Progress.step branches) progress).opened = last ++ rest := by
  induction row generalizing progress own with
  | nil =>
      cases found
      exact ⟨own, rfl, isOpened⟩
  | cons symbol row induction =>
      rw [BranchPair.depth?] at found
      rw [List.foldl_cons]
      split at found
      · next isOpening =>
          have further : (progress.step branches symbol).opened =
              (progress.partners.size :: own) ++ rest := by
            rw [Progress.step, if_pos isOpening, isOpened]
            rfl
          exact induction further found
      · next notOpening =>
          split at found
          · next isClosing =>
              cases own with
              | nil => contradiction
              | cons innermost own =>
                  have further :
                      (progress.step branches symbol).opened = own ++ rest := by
                    rw [Progress.step, if_neg notOpening, if_pos isClosing, isOpened]
                    rfl
                  exact induction further found
          · next notClosing =>
              apply induction _ found
              rw [Progress.step, if_neg notOpening, if_neg notClosing]
              exact isOpened

theorem Sound.joins_balanced (sound : Sound branches read progress)
    (different : branches.closing ≠ branches.opening) {row : List Symbol}
    (balanced : branches.depth? 0 row = some 0) (rest : List Symbol) :
    ((branches.opening :: (row ++ branches.closing :: rest)).foldl
      (Progress.step branches) progress).Joins read.length
        (read.length + row.length + 1) := by
  -- The bracket is the innermost open one behind itself, and so it is behind the
  -- balanced row.
  have opened : (progress.step branches branches.opening).opened =
      [] ++ read.length :: progress.opened := by
    rw [Progress.step, if_pos rfl, sound.size_eq]
    rfl
  rcases exists_opened_foldl opened balanced with ⟨last, none, stillOpened⟩
  have further := (sound.step branches.opening).foldl row
  rw [List.foldl_cons, List.foldl_append, List.foldl_cons]
  apply (further.step branches.closing).joins_foldl
  apply (further.joins_step ..).mpr
  refine .inr ⟨rfl, different, ?_, ?_⟩
  · rw [stillOpened, List.length_eq_zero_iff.mp none]
    rfl
  · rw [further.size_eq, List.length_append, List.length_append, List.length_singleton,
      Nat.add_right_comm]

end Progress

/-- Partners are an opening and a closing bracket with a balanced row between them. -/
theorem joins_iff {symbols : Array Symbol} {first second : Nat} :
    (ofSymbols branches symbols).Joins first second ↔
      first < second ∧ symbols[first]? = some branches.opening ∧
        symbols[second]? = some branches.closing ∧ branches.closing ≠ branches.opening ∧
        branches.depth? 0 ((symbols.toList.take second).drop (first + 1)) = some 0 := by
  constructor
  · intro joins
    have encloses := (Progress.encloses_start branches).foldl symbols.toList
    rw [List.nil_append, Array.foldl_toList] at encloses
    rcases joins.kinds with ⟨isOpening, isClosing, different⟩
    exact ⟨joins.lt, isOpening, isClosing, different,
      encloses.joined first second (joins_ofSymbols.mp joins)⟩
  · rintro ⟨lt, isOpening, isClosing, different, balanced⟩
    rw [joins_ofSymbols, ← Array.foldl_toList]
    rw [← Array.getElem?_toList] at isOpening isClosing
    generalize symbols.toList = row at *
    rcases List.getElem?_eq_some_iff.mp isOpening with ⟨firstInside, firstIs⟩
    rcases List.getElem?_eq_some_iff.mp isClosing with ⟨secondInside, secondIs⟩
    have length : (row.take second).length = second :=
      List.length_take_of_le (Nat.le_of_lt secondInside)
    have behind : row.drop (first + 1) = (row.take second).drop (first + 1) ++
        branches.closing :: row.drop (second + 1) := by
      conv_lhs => rw [← List.take_append_drop second row]
      rw [List.drop_append_of_le_length (by omega), ← secondIs, List.getElem_cons_drop]
    have split : row = row.take first ++ branches.opening :: row.drop (first + 1) := by
      rw [← firstIs, List.getElem_cons_drop, List.take_append_drop]
    have before := (Progress.sound_start branches).foldl (row.take first)
    rw [List.nil_append] at before
    have joined := before.joins_balanced different balanced (row.drop (second + 1))
    rw [← behind, ← List.foldl_append, ← split,
      List.length_take_of_le (Nat.le_of_lt firstInside), List.length_drop,
      length] at joined
    have isSecond : first + (second - (first + 1)) + 1 = second := by omega
    rwa [isSecond] at joined

theorem joins_append_iff (front : List Symbol) {part : List Symbol} (back : List Symbol)
    {first second : Nat} (inside : second < part.length) :
    (ofSymbols branches (front ++ (part ++ back)).toArray).Joins (front.length + first)
        (front.length + second) ↔
      (ofSymbols branches part.toArray).Joins first second := by
  have symbol : ∀ {position}, position < part.length →
      (front ++ (part ++ back))[front.length + position]? = part[position]? := by
    intro position isInside
    rw [List.getElem?_append_right (Nat.le_add_right ..), Nat.add_sub_cancel_left,
      List.getElem?_append_left isInside]
  have between : ((front ++ (part ++ back)).take (front.length + second)).drop
      (front.length + first + 1) = (part.take second).drop (first + 1) := by
    rw [List.take_length_add_append, List.take_append_of_le_length (Nat.le_of_lt inside),
      Nat.add_assoc, List.drop_length_add_append]
  rw [joins_iff, joins_iff, between]
  simp only [List.getElem?_toArray, Nat.add_lt_add_iff_left]
  refine and_congr_right fun lt => ?_
  rw [symbol (Nat.lt_trans lt inside), symbol inside]

end LSystems.BracketTable
