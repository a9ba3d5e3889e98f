import LSystems.Brackets

/-!
# Pairs of brackets

The bracket table is filled symbol by symbol. What holds of it after every symbol: an
entry joins an opening bracket to a closing one behind it, in both directions, and two
pairs never cross.
-/

namespace LSystems.BracketTable

namespace Progress

structure Joins (progress : Progress) (first second : Nat) : Prop where
  lt : first < second
  forward : progress.partners[first]? = some (some second)
  backward : progress.partners[second]? = some (some first)

structure Sound (branches : BranchPair Symbol) (read : List Symbol)
    (progress : Progress) : Prop where
  size_eq : progress.partners.size = read.length
  opened_eq : ∀ position ∈ progress.opened,
    read[position]? = some branches.opening ∧ progress.partners[position]? = some none
  opened_sorted : progress.opened.Pairwise (· > ·)
  joined : ∀ position partner, progress.partners[position]? = some (some partner) →
    progress.Joins position partner ∨ progress.Joins partner position
  kinds : ∀ first second, progress.Joins first second →
    read[first]? = some branches.opening ∧ read[second]? = some branches.closing ∧
      branches.closing ≠ branches.opening
  outside : ∀ first second, progress.Joins first second →
    ∀ position ∈ progress.opened, position < first ∨ second < position
  nested : ∀ first second, progress.Joins first second →
    ∀ third fourth, progress.Joins third fourth → first < third → third < second →
      fourth < second

variable {branches : BranchPair Symbol} {read : List Symbol} {progress : Progress}

theorem Joins.second_lt {first second : Nat} (joins : progress.Joins first second) :
    second < progress.partners.size :=
  (Array.getElem?_eq_some_iff.mp joins.backward).1

theorem sound_start (branches : BranchPair Symbol) : Sound branches [] start where
  size_eq := rfl
  opened_eq := by simp [start]
  opened_sorted := .nil
  joined := by simp [start]
  kinds := fun _ _ joins => absurd joins.second_lt (by simp [start])
  outside := by simp [start]
  nested := fun _ _ joins => absurd joins.second_lt (by simp [start])

private theorem getElem?_append_of_some {position : Nat} {symbol : Symbol}
    (found : read[position]? = some symbol) (further : List Symbol) :
    (read ++ further)[position]? = some symbol := by
  rw [List.getElem?_append_left (List.getElem?_eq_some_iff.mp found).1]
  exact found

/-! ## Symbols that close nothing -/

private def pass (progress : Progress) (opened : List Nat) (surplus : Nat) : Progress :=
  ⟨progress.partners.push none, opened, surplus⟩

private theorem pass_entry (opened : List Nat) (surplus position partner : Nat) :
    (progress.pass opened surplus).partners[position]? = some (some partner) ↔
      progress.partners[position]? = some (some partner) := by
  simp only [pass, Array.getElem?_push]
  split
  · next equal =>
      subst equal
      simp
  · rfl

private theorem pass_joins (opened : List Nat) (surplus first second : Nat) :
    (progress.pass opened surplus).Joins first second ↔ progress.Joins first second := by
  constructor
  · intro joins
    exact ⟨joins.lt, (pass_entry ..).mp joins.forward, (pass_entry ..).mp joins.backward⟩
  · intro joins
    exact ⟨joins.lt, (pass_entry ..).mpr joins.forward,
      (pass_entry ..).mpr joins.backward⟩

private theorem Sound.pass (sound : Sound branches read progress) (symbol : Symbol)
    (opened : List Nat) (surplus : Nat) (sorted : opened.Pairwise (· > ·))
    (known : ∀ position ∈ opened, position ∈ progress.opened ∨
      position = progress.partners.size ∧ symbol = branches.opening) :
    Sound branches (read ++ [symbol]) (progress.pass opened surplus) where
  size_eq := by simp [Progress.pass, sound.size_eq]
  opened_eq := by
    intro position member
    rcases known position member with before | ⟨rfl, rfl⟩
    · obtain ⟨isOpening, noPartner⟩ := sound.opened_eq position before
      refine ⟨getElem?_append_of_some isOpening _, ?_⟩
      have inside := (Array.getElem?_eq_some_iff.mp noPartner).1
      rw [Progress.pass, Array.getElem?_push_lt inside,
        ← Array.getElem?_eq_getElem inside]
      exact noPartner
    · refine ⟨?_, by rw [Progress.pass, Array.getElem?_push_size]⟩
      rw [sound.size_eq, List.getElem?_concat_length]
  opened_sorted := sorted
  joined := by
    intro position partner entry
    simp only [pass_joins]
    exact sound.joined position partner ((pass_entry ..).mp entry)
  kinds := by
    intro first second joins
    obtain ⟨isOpening, isClosing, different⟩ :=
      sound.kinds first second ((pass_joins ..).mp joins)
    exact ⟨getElem?_append_of_some isOpening _,
      getElem?_append_of_some isClosing _, different⟩
  outside := by
    intro first second joins position member
    have before := (pass_joins ..).mp joins
    rcases known position member with inside | ⟨rfl, _⟩
    · exact sound.outside first second before position inside
    · exact .inr before.second_lt
  nested := by
    intro first second joins third fourth further
    exact sound.nested first second ((pass_joins ..).mp joins) third fourth
      ((pass_joins ..).mp further)

/-! ## Symbols that close a bracket -/

private def close (progress : Progress) (innermost : Nat) (opened : List Nat) :
    Progress :=
  ⟨(progress.partners.setIfInBounds innermost (some progress.partners.size)).push
    (some innermost), opened, progress.surplus⟩

private theorem close_getElem? {innermost : Nat} (opened : List Nat)
    (inside : innermost < progress.partners.size) (position : Nat) :
    (progress.close innermost opened).partners[position]? =
      if position = progress.partners.size then some (some innermost)
      else if position = innermost then some (some progress.partners.size)
      else progress.partners[position]? := by
  simp only [close, Array.getElem?_push, Array.size_setIfInBounds]
  by_cases isNew : position = progress.partners.size
  · rw [if_pos isNew, if_pos isNew]
  · rw [if_neg isNew, if_neg isNew]
    by_cases isInner : position = innermost
    · rw [if_pos isInner, isInner, Array.getElem?_setIfInBounds_self_of_lt inside]
    · rw [if_neg isInner, Array.getElem?_setIfInBounds_ne (Ne.symm isInner)]

private theorem close_joins {innermost : Nat} {opened : List Nat}
    (free : progress.partners[innermost]? = some none) (first second : Nat) :
    (progress.close innermost opened).Joins first second ↔
      progress.Joins first second ∨
        first = innermost ∧ second = progress.partners.size := by
  have inside := (Array.getElem?_eq_some_iff.mp free).1
  have entry := close_getElem? opened inside
  constructor
  · intro joins
    have forward := joins.forward
    have backward := joins.backward
    have lt := joins.lt
    rw [entry] at forward backward
    by_cases isNew : second = progress.partners.size
    · rw [if_pos isNew, Option.some.injEq, Option.some.injEq] at backward
      exact .inr ⟨backward.symm, isNew⟩
    · have firstOld : first ≠ progress.partners.size := by
        intro equal
        rw [if_pos equal, Option.some.injEq, Option.some.injEq] at forward
        omega
      have firstOther : first ≠ innermost := by
        intro equal
        rw [if_neg firstOld, if_pos equal, Option.some.injEq,
          Option.some.injEq] at forward
        exact isNew forward.symm
      have secondOther : second ≠ innermost := by
        intro equal
        rw [if_neg isNew, if_pos equal, Option.some.injEq, Option.some.injEq] at backward
        exact firstOld backward.symm
      rw [if_neg firstOld, if_neg firstOther] at forward
      rw [if_neg isNew, if_neg secondOther] at backward
      exact .inl ⟨lt, forward, backward⟩
  · rintro (joins | ⟨rfl, rfl⟩)
    · have occupied : ∀ position partner,
          progress.partners[position]? = some (some partner) → position ≠ innermost := by
        rintro position partner found rfl
        cases free.symm.trans found
      have lt := joins.lt
      have secondInside := joins.second_lt
      refine ⟨lt, ?_, ?_⟩
      · rw [entry, if_neg (by omega), if_neg (occupied _ _ joins.forward)]
        exact joins.forward
      · rw [entry, if_neg (by omega), if_neg (occupied _ _ joins.backward)]
        exact joins.backward
    · refine ⟨inside, ?_, ?_⟩
      · rw [entry, if_neg (Nat.ne_of_lt inside), if_pos rfl]
      · rw [entry, if_pos rfl]

private theorem Sound.close {innermost : Nat} {opened : List Nat}
    (sound : Sound branches read progress)
    (isOpened : progress.opened = innermost :: opened)
    (different : branches.closing ≠ branches.opening) :
    Sound branches (read ++ [branches.closing]) (progress.close innermost opened) := by
  obtain ⟨isOpening, free⟩ := sound.opened_eq innermost (by simp [isOpened])
  have inside := (Array.getElem?_eq_some_iff.mp free).1
  have sorted := sound.opened_sorted
  rw [isOpened, List.pairwise_cons] at sorted
  have entry := close_getElem? opened inside
  have stillOpen {position : Nat} (member : position ∈ opened) :
      position ∈ progress.opened :=
    isOpened ▸ List.mem_cons_of_mem innermost member
  refine ⟨?_, ?_, sorted.2, ?_, ?_, ?_, ?_⟩
  · simp [Progress.close, sound.size_eq]
  · intro position member
    obtain ⟨alsoOpening, noPartner⟩ := sound.opened_eq position (stillOpen member)
    refine ⟨getElem?_append_of_some alsoOpening _, ?_⟩
    have notNew := Nat.ne_of_lt (Array.getElem?_eq_some_iff.mp noPartner).1
    rw [entry, if_neg notNew, if_neg (Nat.ne_of_lt (sorted.1 position member))]
    exact noPartner
  · intro position partner found
    rw [entry] at found
    simp only [close_joins free]
    split at found
    · next isNew =>
        cases found
        exact .inr (.inr ⟨rfl, isNew⟩)
    · split at found
      · next isInnermost =>
          cases found
          exact .inl (.inr ⟨isInnermost, rfl⟩)
      · rcases sound.joined position partner found with joins | joins
        · exact .inl (.inl joins)
        · exact .inr (.inl joins)
  · intro first second joins
    rcases (close_joins free ..).mp joins with before | ⟨rfl, rfl⟩
    · obtain ⟨firstOpening, secondClosing, _⟩ := sound.kinds first second before
      exact ⟨getElem?_append_of_some firstOpening _,
        getElem?_append_of_some secondClosing _, different⟩
    · refine ⟨getElem?_append_of_some isOpening _, ?_, different⟩
      rw [sound.size_eq, List.getElem?_concat_length]
  · intro first second joins position member
    rcases (close_joins free ..).mp joins with before | ⟨rfl, rfl⟩
    · exact sound.outside first second before position (stillOpen member)
    · exact .inl (sorted.1 position member)
  · intro first second joins third fourth further firstThird thirdSecond
    rcases (close_joins free ..).mp joins with before | ⟨rfl, rfl⟩
    · rcases (close_joins free ..).mp further with alsoBefore | ⟨rfl, rfl⟩
      · exact sound.nested first second before third fourth alsoBefore
          firstThird thirdSecond
      · -- a bracket that was open until now does not lie inside a pair
        rcases sound.outside first second before third (by simp [isOpened]) with
          left | right
        · omega
        · omega
    · rcases (close_joins free ..).mp further with alsoBefore | ⟨rfl, rfl⟩
      · exact alsoBefore.second_lt
      · omega

/-! ## Whole rows -/

theorem Sound.step (sound : Sound branches read progress) (symbol : Symbol) :
    Sound branches (read ++ [symbol]) (progress.step branches symbol) := by
  unfold Progress.step
  split
  · next isOpening =>
      refine sound.pass symbol (progress.partners.size :: progress.opened)
        progress.surplus ?_ ?_
      · refine List.pairwise_cons.mpr ⟨?_, sound.opened_sorted⟩
        intro position member
        exact (Array.getElem?_eq_some_iff.mp (sound.opened_eq position member).2).1
      · intro position member
        rcases List.mem_cons.mp member with rfl | before
        · exact .inr ⟨rfl, isOpening⟩
        · exact .inl before
  · next notOpening =>
      split
      · next isClosing =>
          split
          · exact sound.pass symbol progress.opened (progress.surplus + 1)
              sound.opened_sorted
              fun _ member => .inl member
          · next innermost opened isOpened =>
              subst isClosing
              exact sound.close isOpened notOpening
      · exact sound.pass symbol progress.opened progress.surplus sound.opened_sorted
          fun _ member => .inl member

theorem Sound.joins_step (sound : Sound branches read progress) (symbol : Symbol)
    (first second : Nat) :
    (progress.step branches symbol).Joins first second ↔
      progress.Joins first second ∨
        symbol = branches.closing ∧ branches.closing ≠ branches.opening ∧
          progress.opened.head? = some first ∧ second = progress.partners.size := by
  unfold Progress.step
  split
  · next isOpening =>
      apply (pass_joins ..).trans
      constructor
      · exact .inl
      · rintro (joins | ⟨isClosing, different, _⟩)
        · exact joins
        · exact absurd (isClosing.symm.trans isOpening) different
  · next notOpening =>
      split
      · next isClosing =>
          split
          · next none =>
              apply (pass_joins ..).trans
              simp [none]
          · next innermost opened isOpened =>
              have free := (sound.opened_eq innermost (by simp [isOpened])).2
              apply (close_joins free first second).trans
              simp [isOpened, isClosing, isClosing ▸ notOpening, eq_comm]
      · next notClosing =>
          apply (pass_joins ..).trans
          simp [notClosing]

theorem Sound.foldl (symbols : List Symbol) (sound : Sound branches read progress) :
    Sound branches (read ++ symbols)
      (symbols.foldl (Progress.step branches) progress) := by
  induction symbols generalizing read progress with
  | nil => simpa using sound
  | cons symbol rest induction =>
      have further := induction (sound.step symbol)
      rwa [List.append_assoc, List.singleton_append] at further

end Progress

/-- The brackets at two positions are partners, the opening one first. -/
structure Joins (table : BracketTable) (first second : Nat) : Prop where
  lt : first < second
  forward : table.partner? first = some second
  backward : table.partner? second = some first

section

variable {branches : BranchPair Symbol} {symbols : Array Symbol} {first second : Nat}

private theorem sound_ofSymbols (branches : BranchPair Symbol) (symbols : Array Symbol) :
    Progress.Sound branches symbols.toList
      (symbols.foldl (Progress.step branches) Progress.start) := by
  have sound := (Progress.sound_start branches).foldl symbols.toList
  rwa [List.nil_append, Array.foldl_toList] at sound

private theorem partner?_ofSymbols (position partner : Nat) :
    (ofSymbols branches symbols).partner? position = some partner ↔
      (symbols.foldl (Progress.step branches) Progress.start).partners[position]? =
        some (some partner) := by
  simp [partner?, ofSymbols, Option.join_eq_some_iff]

theorem joins_ofSymbols :
    (ofSymbols branches symbols).Joins first second ↔
      (symbols.foldl (Progress.step branches) Progress.start).Joins first second := by
  constructor
  · intro joins
    exact ⟨joins.lt, (partner?_ofSymbols ..).mp joins.forward,
      (partner?_ofSymbols ..).mp joins.backward⟩
  · intro joins
    exact ⟨joins.lt, (partner?_ofSymbols ..).mpr joins.forward,
      (partner?_ofSymbols ..).mpr joins.backward⟩

theorem joins_of_partner? {position partner : Nat}
    (found : (ofSymbols branches symbols).partner? position = some partner) :
    (ofSymbols branches symbols).Joins position partner ∨
      (ofSymbols branches symbols).Joins partner position := by
  simp only [joins_ofSymbols]
  exact (sound_ofSymbols branches symbols).joined _ _ ((partner?_ofSymbols ..).mp found)

theorem Joins.kinds (joins : (ofSymbols branches symbols).Joins first second) :
    symbols[first]? = some branches.opening ∧ symbols[second]? = some branches.closing ∧
      branches.closing ≠ branches.opening := by
  have kinds := (sound_ofSymbols branches symbols).kinds _ _ (joins_ofSymbols.mp joins)
  simpa only [Array.getElem?_toList] using kinds

theorem Joins.nested {third fourth : Nat}
    (joins : (ofSymbols branches symbols).Joins first second)
    (further : (ofSymbols branches symbols).Joins third fourth)
    (after : first < third) (before : third < second) : fourth < second :=
  (sound_ofSymbols branches symbols).nested _ _ (joins_ofSymbols.mp joins) _ _
    (joins_ofSymbols.mp further) after before

end

end LSystems.BracketTable
