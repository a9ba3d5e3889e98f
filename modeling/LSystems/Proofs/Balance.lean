import LSystems.Proofs.Alphabets
import LSystems.Proofs.Words

/-!
# Balance

The two checks of brackets, of located letters in a text and of the symbols of a word,
say the same: the number of open brackets never falls below zero and comes back to it. A
row of symbols stays balanced when each of them is replaced by a row that leaves the
number of open brackets as the symbol does.
-/

namespace LSystems

namespace BranchPair

variable {α : Type} [DecidableEq α] {branches : BranchPair α}

/-- The number of open brackets behind a row of symbols with `depth` of them open in
front of it, if every closing bracket finds one to close. -/
def depth? (branches : BranchPair α) : (depth : Nat) → List α → Option Nat
  | depth, [] => some depth
  | depth, symbol :: rest =>
    if symbol = branches.opening then branches.depth? (depth + 1) rest
    else if symbol = branches.closing then
      if depth = 0 then none else branches.depth? (depth - 1) rest
    else branches.depth? depth rest

example : (BranchPair.mk 0 1).depth? 0 [2, 0, 2, 0, 1] = some 1 := rfl

theorem depth?_of_not_contains {symbol : α}
    (notBracket : branches.contains symbol = false) (depth : Nat) (rest : List α) :
    branches.depth? depth (symbol :: rest) = branches.depth? depth rest := by
  simp only [contains, Bool.or_eq_false_iff, decide_eq_false_iff_not] at notBracket
  rw [depth?, if_neg notBracket.1, if_neg notBracket.2]

theorem depth?_append (depth : Nat) (front back : List α) :
    branches.depth? depth (front ++ back) =
      (branches.depth? depth front).bind fun depth => branches.depth? depth back := by
  induction front generalizing depth with
  | nil => rfl
  | cons symbol rest induction =>
      simp only [List.cons_append, depth?]
      split
      · exact induction (depth + 1)
      · split
        · split
          · rfl
          · exact induction (depth - 1)
        · exact induction depth

theorem depth?_add {depth last : Nat} {row : List α}
    (found : branches.depth? depth row = some last) (more : Nat) :
    branches.depth? (depth + more) row = some (last + more) := by
  induction row generalizing depth with
  | nil =>
      cases found
      rfl
  | cons symbol rest induction =>
      simp only [depth?] at found ⊢
      split at found
      · next isOpening =>
          rw [if_pos isOpening, Nat.add_right_comm]
          exact induction found
      · next notOpening =>
          rw [if_neg notOpening]
          split at found
          · next isClosing =>
              split at found
              · contradiction
              · next positive =>
                  have same : depth + more - 1 = depth - 1 + more := by omega
                  rw [if_pos isClosing, if_neg (by omega), same]
                  exact induction found
          · next notClosing =>
              rw [if_neg notClosing]
              exact induction found

theorem depth?_of_balanced {row : List α} (balanced : branches.depth? 0 row = some 0)
    (depth : Nat) :
    branches.depth? depth row = some depth := by
  have found := depth?_add balanced depth
  rwa [Nat.zero_add] at found

/-- Rows in place of single symbols change nothing if each leaves as many brackets open
as its symbol does. -/
theorem depth?_flatten {symbols : List α} {rows : List (List α)}
    (alike : List.Forall₂ (fun symbol row =>
      ∀ depth, branches.depth? depth row = branches.depth? depth [symbol]) symbols rows)
    (depth : Nat) :
    branches.depth? depth rows.flatten = branches.depth? depth symbols := by
  induction alike generalizing depth with
  | nil => rfl
  | @cons symbol row symbols rows same _ induction =>
      have further : (fun depth => branches.depth? depth rows.flatten) =
          fun depth => branches.depth? depth symbols := funext induction
      rw [List.flatten_cons, depth?_append, same, further, ← depth?_append,
        List.singleton_append]

end BranchPair

/-! ## Checks -/

theorem checkBalance_eq_ok_iff {α : Type} [DecidableEq α] {branches : BranchPair α}
    {place : Section} {opened : List Span} {row : List (α × Span)} :
    checkBalance branches place opened row = .ok () ↔
      branches.depth? opened.length (row.map Prod.fst) = some 0 := by
  induction row generalizing opened with
  | nil => cases opened <;> simp [checkBalance, BranchPair.depth?]
  | cons located rest induction =>
      obtain ⟨symbol, span⟩ := located
      cases opened with
      | nil =>
          rw [checkBalance, List.map_cons, BranchPair.depth?]
          split
          · exact induction
          · split
            · simp
            · exact induction
      | cons innermost opened =>
          rw [checkBalance, List.map_cons, BranchPair.depth?]
          split
          · exact induction
          · split
            · exact induction
            · exact induction

namespace BracketTable

variable {branches : BranchPair Symbol}

namespace Progress

theorem depth?_step (branches : BranchPair Symbol) (progress : Progress)
    (symbol : Symbol) :
    (branches.depth? progress.opened.length [symbol] =
        some (progress.step branches symbol).opened.length ∧
      (progress.step branches symbol).surplus = progress.surplus) ∨
    (branches.depth? progress.opened.length [symbol] = none ∧
      (progress.step branches symbol).surplus = progress.surplus + 1) := by
  simp only [BranchPair.depth?, step]
  split
  · exact .inl ⟨rfl, rfl⟩
  · split
    · cases progress.opened with
      | nil => exact .inr ⟨rfl, rfl⟩
      | cons innermost opened => exact .inl ⟨rfl, rfl⟩
    · exact .inl ⟨rfl, rfl⟩

theorem depth?_foldl (branches : BranchPair Symbol) (progress : Progress)
    (row : List Symbol) :
    (branches.depth? progress.opened.length row =
        some (row.foldl (step branches) progress).opened.length ∧
      (row.foldl (step branches) progress).surplus = progress.surplus) ∨
    (branches.depth? progress.opened.length row = none ∧
      progress.surplus < (row.foldl (step branches) progress).surplus) := by
  induction row generalizing progress with
  | nil => exact .inl ⟨rfl, rfl⟩
  | cons symbol rest induction =>
      have further := induction (progress.step branches symbol)
      rw [List.foldl_cons, ← List.singleton_append, BranchPair.depth?_append]
      rcases depth?_step branches progress symbol with ⟨known, same⟩ | ⟨absent, more⟩
      · rwa [known, Option.bind_some, ← same]
      · rw [absent, Option.bind_none]
        rcases further with ⟨_, surplus⟩ | ⟨_, surplus⟩
        · exact .inr ⟨rfl, by omega⟩
        · exact .inr ⟨rfl, by omega⟩

end Progress

theorem validate_eq_ok_iff {symbols : Array Symbol} :
    (ofSymbols branches symbols).validate = .ok () ↔
      branches.depth? 0 symbols.toList = some 0 := by
  have valid : (ofSymbols branches symbols).validate = .ok () ↔
      (symbols.toList.foldl (Progress.step branches) .start).surplus = 0 ∧
        (symbols.toList.foldl (Progress.step branches) .start).opened.length = 0 := by
    rw [Array.foldl_toList, validate]
    change ite (0 < (ofSymbols branches symbols).unmatchedClosing) _ _ = _ ↔
      (ofSymbols branches symbols).unmatchedClosing = 0 ∧
        (ofSymbols branches symbols).unmatchedOpening = 0
    split
    · next surplus => simp [Nat.ne_of_gt surplus]
    · next noSurplus =>
        split
        · next opened => simp [Nat.ne_of_gt opened]
        · next noOpened =>
            simp [Nat.eq_zero_of_not_pos noSurplus, Nat.eq_zero_of_not_pos noOpened]
  have counted := Progress.depth?_foldl branches .start symbols.toList
  rw [valid]
  rcases counted with ⟨known, same⟩ | ⟨absent, more⟩
  · have known : branches.depth? 0 symbols.toList = _ := known
    rw [known, same]
    simp [Progress.start]
  · have absent : branches.depth? 0 symbols.toList = none := absent
    rw [absent]
    constructor
    · exact fun none => absurd none.1 (Nat.ne_of_gt (Nat.zero_lt_of_lt more))
    · exact nofun

end BracketTable

/-! ## Numbers of letters -/

theorem Alphabet.depth?_codes {alphabet : Alphabet} (branches : BranchPair Char)
    {letters : List Char} (known : ∀ letter ∈ letters, letter ∈ alphabet.letters)
    (depth : Nat) :
    (alphabet.codes branches).depth? depth (letters.map alphabet.code) =
      branches.depth? depth letters := by
  induction letters generalizing depth with
  | nil => rfl
  | cons letter rest induction =>
      have parts := List.forall_mem_cons.mp known
      simp only [List.map_cons, BranchPair.depth?, codes, code_eq_iff parts.1]
      simp only [← induction parts.2, codes]

end LSystems
