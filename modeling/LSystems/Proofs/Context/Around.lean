import LSystems.Proofs.Context.Excision
import LSystems.Proofs.Context.Search
import LSystems.Proofs.Context.Walks

/-!
# Contexts around a branch

A walk on one level, or back to the parent, goes around complete branches: it finds what
it finds where a branch has been cut out, at its new place. So do left contexts, and
right contexts that ask for no branches. Main statements: `LeftContext.match?_excised`
and `ContextTree.match?_excised`.
-/

namespace LSystems

namespace Scene.Excision

variable {whole cut : Scene} {first last position : Nat}

theorem hasShape_eq (excision : whole.Excision cut first last)
    (apart : Apart first last position) (shape : Shape) :
    cut.hasShape (placeExcised first last position) shape =
      whole.hasShape position shape := by
  rw [hasShape, hasShape, excision.symbol_eq position apart,
    excision.arity_eq position apart]

/-! ## Brackets -/

theorem apart_of_not_opening (excision : whole.Excision cut first last)
    (regular : whole.Regular) (outside : position ≤ first ∨ last < position)
    (notOpening : whole.symbol? position ≠ some whole.branches.opening) :
    Apart first last position := by
  have opens := regular.opening_of_joins excision.joins
  rcases outside with before | behind
  · rcases Nat.lt_or_eq_of_le before with before | rfl
    · exact .inl before
    · exact absurd opens notOpening
  · exact .inr behind

theorem apart_of_not_closing (excision : whole.Excision cut first last)
    (regular : whole.Regular) (outside : position + 1 ≤ first ∨ last < position + 1)
    (notClosing : whole.symbol? position ≠ some whole.branches.closing) :
    Apart first last position := by
  have closes := regular.closing_of_joins excision.joins
  rcases outside with before | behind
  · exact .inl before
  · rcases Nat.lt_or_eq_of_le (Nat.le_of_lt_succ behind) with behind | rfl
    · exact .inr behind
    · exact absurd closes notClosing

theorem apart_of_partner? (excision : whole.Excision cut first last)
    (regular : whole.Regular) (apart : Apart first last position) {partner : Nat}
    (isPartner : whole.table.partner? position = some partner) :
    Apart first last partner := by
  have around := excision.joins
  rw [regular.table_eq] at isPartner around
  rcases BracketTable.joins_of_partner? isPartner with joins | joins
  · exact (around.apart_iff joins).mp apart
  · exact (around.apart_iff joins).mpr apart

theorem behindBranch?_eq (excision : whole.Excision cut first last)
    (regular : whole.Regular) (apart : Apart first last position) :
    cut.behindBranch? (placeExcised first last position) =
      (whole.behindBranch? position).map (placeExcised first last) := by
  rw [behindBranch?, behindBranch?, excision.partner_eq position apart]
  cases isPartner : whole.table.partner? position with
  | none => rfl
  | some partner =>
      have partnerApart := excision.apart_of_partner? regular apart isPartner
      rw [Option.map_some]
      simp only [placeExcised_lt_iff (Nat.le_of_lt excision.joins.lt) apart partnerApart]
      split
      · rw [Option.map_some, placeExcised_succ partnerApart]
      · rfl

theorem branchStart?_eq (excision : whole.Excision cut first last)
    (regular : whole.Regular) (apart : Apart first last position) :
    cut.branchStart? (placeExcised first last position) =
      (whole.branchStart? position).map (placeExcised first last) := by
  rw [branchStart?, branchStart?, excision.partner_eq position apart]
  cases isPartner : whole.table.partner? position with
  | none => rfl
  | some partner =>
      have partnerApart := excision.apart_of_partner? regular apart isPartner
      rw [Option.map_some]
      simp only [placeExcised_lt_iff (Nat.le_of_lt excision.joins.lt) partnerApart apart]
      split
      · rw [Option.map_some]
      · rfl

/-! ## Walks -/

theorem outside_succ (apart : Apart first last position) :
    position + 1 ≤ first ∨ last < position + 1 := by
  unfold Apart at apart
  omega

theorem forward?_excised (excision : whole.Excision cut first last)
    (regular : whole.Regular) (outside : position ≤ first ∨ last < position) :
    cut.forward? (placeExcised first last position) =
        (whole.forward? position).map (placeExcised first last) ∧
      ∀ found ∈ whole.forward? position, Apart first last found := by
  -- Along the walk only the opening bracket at `first` is not apart from what is cut
  -- out, and the walk goes on behind `last` from there.
  fun_induction whole.forward? position with
  | case1 position missing =>
      have apart := excision.apart_of_not_opening regular outside (by simp [missing])
      rw [forward?_eq, excision.symbol_eq position apart, missing]
      exact ⟨rfl, by simp⟩
  | case2 position symbol found isIgnored induction =>
      have notOpening := regular.not_opening_of_ignored found isIgnored
      have apart := excision.apart_of_not_opening regular outside notOpening
      rw [forward?_eq, excision.symbol_eq position apart, found]
      simp only [excision.ignored_eq, isIgnored, if_true, ← placeExcised_succ apart]
      exact induction (outside_succ apart)
  | case3 position behind jump found notIgnored induction =>
      rcases regular.behindBranch?_eq_some_iff.mp jump with ⟨closing, joins, rfl⟩
      by_cases isFirst : position = first
      · subst isFirst
        cases Option.some.inj (joins.forward.symm.trans excision.joins.forward)
        rw [← placeExcised_around (Nat.le_of_lt joins.lt)]
        exact induction (.inr (Nat.lt_succ_self last))
      · have apart : Apart first last position := by
          unfold Apart
          omega
        have closingApart := excision.apart_of_partner? regular apart joins.forward
        rw [forward?_eq, excision.symbol_eq position apart, found]
        simp only [excision.ignored_eq, excision.branches_eq, notIgnored,
          excision.behindBranch?_eq regular apart, jump, Option.map_some,
          Option.bind_some, if_true]
        exact induction (outside_succ closingApart)
  | case4 position jump found notIgnored =>
      have different : position ≠ first := by
        rintro rfl
        have around := regular.behindBranch?_eq_some_iff.mpr ⟨last, excision.joins, rfl⟩
        cases jump.symm.trans around
      have apart : Apart first last position := by
        unfold Apart
        omega
      rw [forward?_eq, excision.symbol_eq position apart, found]
      simp [excision.ignored_eq, excision.branches_eq, notIgnored,
        excision.behindBranch?_eq regular apart, jump]
  | case5 position found notIgnored notOpening =>
      have apart := excision.apart_of_not_opening regular outside
        (by simpa [found] using notOpening)
      rw [forward?_eq, excision.symbol_eq position apart, found]
      simp [excision.ignored_eq, excision.branches_eq, notIgnored, notOpening]
  | case6 position symbol found notIgnored notOpening notClosing =>
      have apart := excision.apart_of_not_opening regular outside
        (by simpa [found] using notOpening)
      rw [forward?_eq, excision.symbol_eq position apart, found]
      simp [excision.ignored_eq, excision.branches_eq, notIgnored, notOpening,
        notClosing, apart]

theorem successor?_excised (excision : whole.Excision cut first last)
    (regular : whole.Regular) (apart : Apart first last position) :
    cut.successor? (placeExcised first last position) =
        (whole.successor? position).map (placeExcised first last) ∧
      ∀ found ∈ whole.successor? position, Apart first last found := by
  rw [successor?, successor?, ← placeExcised_succ apart]
  exact excision.forward?_excised regular (outside_succ apart)

theorem parent?_excised (excision : whole.Excision cut first last)
    (regular : whole.Regular) (outside : position ≤ first ∨ last < position) :
    cut.parent? (placeExcised first last position) =
        (whole.parent? position).map (placeExcised first last) ∧
      ∀ found ∈ whole.parent? position, Apart first last found := by
  -- Here it is the closing bracket at `last`, from which the walk goes on at `first`.
  fun_induction whole.parent? position with
  | case1 =>
      rw [placeExcised_front (Nat.zero_le first), parent?]
      exact ⟨rfl, by simp⟩
  | case2 before missing =>
      have apart := excision.apart_of_not_closing regular outside (by simp [missing])
      rw [placeExcised_succ apart, parent?_succ_eq,
        excision.symbol_eq before apart, missing]
      exact ⟨rfl, by simp⟩
  | case3 before symbol found isPassed induction =>
      have notClosing : symbol ≠ whole.branches.closing := by
        rintro rfl
        have different := regular.not_opening_of_joins excision.joins
        rw [regular.closing_of_joins excision.joins] at different
        simp only [regular.closing_seen, Bool.or_false, decide_eq_true_eq] at isPassed
        exact different (congrArg some isPassed)
      have apart := excision.apart_of_not_closing regular outside
        (by simpa [found] using notClosing)
      rw [placeExcised_succ apart, parent?_succ_eq,
        excision.symbol_eq before apart, found]
      simp only [excision.ignored_eq, excision.branches_eq, isPassed, if_true]
      exact induction (apart.imp Nat.le_of_lt id)
  | case4 before start jump found notPassed induction =>
      have joins := regular.branchStart?_eq_some_iff.mp jump
      by_cases isLast : before = last
      · subst isLast
        cases Option.some.inj (joins.backward.symm.trans excision.joins.backward)
        rw [placeExcised_around (Nat.le_of_lt joins.lt)]
        exact induction (.inl (Nat.le_refl _))
      · have apart : Apart first last before := by
          unfold Apart
          omega
        have startApart := excision.apart_of_partner? regular apart joins.backward
        rw [placeExcised_succ apart, parent?_succ_eq,
          excision.symbol_eq before apart, found]
        simp only [excision.ignored_eq, excision.branches_eq, notPassed,
          excision.branchStart?_eq regular apart, jump, Option.map_some,
          Option.bind_some, if_true]
        exact induction (startApart.imp Nat.le_of_lt id)
  | case5 before jump found notPassed =>
      have different : before ≠ last := by
        rintro rfl
        cases jump.symm.trans (regular.branchStart?_eq_some_iff.mpr excision.joins)
      have apart : Apart first last before := by
        unfold Apart
        omega
      rw [placeExcised_succ apart, parent?_succ_eq,
        excision.symbol_eq before apart, found]
      simp [excision.ignored_eq, excision.branches_eq, notPassed,
        excision.branchStart?_eq regular apart, jump]
  | case6 before symbol found notPassed notClosing =>
      have apart := excision.apart_of_not_closing regular outside
        (by simpa [found] using notClosing)
      rw [placeExcised_succ apart, parent?_succ_eq,
        excision.symbol_eq before apart, found]
      simp [excision.ignored_eq, excision.branches_eq, notPassed, notClosing, apart]

/-! ## Passages -/

theorem joins_iff (excision : whole.Excision cut first last)
    (regular : whole.Regular) {other : Nat} (apart : Apart first last position)
    (otherApart : Apart first last other) :
    cut.table.Joins (placeExcised first last position) (placeExcised first last other) ↔
      whole.table.Joins position other := by
  have le := Nat.le_of_lt excision.joins.lt
  have partner : ∀ {position other}, Apart first last position → Apart first last other →
      (cut.table.partner? (placeExcised first last position) =
        some (placeExcised first last other) ↔
        whole.table.partner? position = some other) := by
    intro position other apart otherApart
    rw [excision.partner_eq position apart, Option.map_eq_some_iff]
    constructor
    · rintro ⟨partner, isPartner, same⟩
      have partnerApart := excision.apart_of_partner? regular apart isPartner
      rwa [placeExcised_inj le partnerApart otherApart same] at isPartner
    · intro isPartner
      exact ⟨other, isPartner, rfl⟩
  constructor
  · rintro ⟨lt, forward, backward⟩
    exact ⟨(placeExcised_lt_iff le apart otherApart).mp lt,
      (partner apart otherApart).mp forward, (partner otherApart apart).mp backward⟩
  · rintro ⟨lt, forward, backward⟩
    exact ⟨(placeExcised_lt_iff le apart otherApart).mpr lt,
      (partner apart otherApart).mpr forward, (partner otherApart apart).mpr backward⟩

variable {start stop entered : Nat}

private theorem passage_excised (excision : whole.Excision cut first last)
    (regular : whole.Regular) (passage : Passage whole start entered stop)
    (outside : stop ≤ first ∨ last < stop) :
    Passage cut (placeExcised first last start) entered
      (placeExcised first last stop) := by
  have different : whole.branches.closing ≠ whole.branches.opening := fun same =>
    regular.not_opening_of_joins excision.joins
      (same ▸ regular.closing_of_joins excision.joins)
  induction passage with
  | here => exact .here
  | @ignored _ stop symbol _ found isIgnored induction =>
      have notClosing : whole.symbol? stop ≠ some whole.branches.closing := by
        intro isClosing
        cases found.symm.trans isClosing
        cases regular.closing_seen.symm.trans isIgnored
      have apart := excision.apart_of_not_closing regular outside notClosing
      rw [placeExcised_succ apart]
      exact (induction (apart.imp Nat.le_of_lt id)).ignored
        ((excision.symbol_eq stop apart).trans found) (excision.ignored_eq ▸ isIgnored)
  | @around _ stop closing _ joins induction =>
      by_cases isLast : closing = last
      · -- The step around the branch itself is none where the branch has been cut out.
        subst isLast
        cases Option.some.inj (joins.backward.symm.trans excision.joins.backward)
        rw [placeExcised_around (Nat.le_of_lt joins.lt)]
        exact induction (.inl (Nat.le_refl first))
      · have closingApart : Apart first last closing := by
          unfold Apart
          omega
        have apart := excision.apart_of_partner? regular closingApart joins.backward
        rw [placeExcised_succ closingApart]
        exact (induction (apart.imp Nat.le_of_lt id)).around
          ((excision.joins_iff regular apart closingApart).mpr joins)
  | @into _ stop _ isOpening induction =>
      have notClosing : whole.symbol? stop ≠ some whole.branches.closing := by
        rw [isOpening]
        exact fun same => different (Option.some.inj same).symm
      have apart := excision.apart_of_not_closing regular outside notClosing
      rw [placeExcised_succ apart]
      refine (induction (apart.imp Nat.le_of_lt id)).into ?_
      rw [excision.symbol_eq stop apart, excision.branches_eq, isOpening]

private theorem passage_to (excision : whole.Excision cut first last)
    (passage : Passage whole start entered position)
    (outside : position ≤ first ∨ last < position) (apart : Apart first last stop)
    (same : placeExcised first last position = placeExcised first last stop) :
    Passage whole start entered stop := by
  have le := Nat.le_of_lt excision.joins.lt
  by_cases isFirst : position = first
  · subst isFirst
    have behind : stop = last + 1 := by
      unfold Apart at apart
      unfold placeExcised at same
      split at same <;> split at same <;> omega
    rw [behind]
    exact passage.around excision.joins
  · have positionApart : Apart first last position := by
      unfold Apart
      omega
    rwa [placeExcised_inj le positionApart apart same] at passage

private theorem passage_of_excised (excision : whole.Excision cut first last)
    (regular : whole.Regular) (outside : start ≤ first ∨ last < start) {place : Nat}
    (passage : Passage cut (placeExcised first last start) entered place)
    (apart : Apart first last stop) (isPlace : place = placeExcised first last stop) :
    Passage whole start entered stop := by
  have le := Nat.le_of_lt excision.joins.lt
  induction passage generalizing stop with
  | here => exact excision.passage_to .here outside apart isPlace
  | @ignored _ place _ _ found isIgnored induction =>
      rcases exists_placeExcised le place with ⟨position, positionApart, rfl⟩
      rw [excision.symbol_eq position positionApart] at found
      rw [excision.ignored_eq] at isIgnored
      rw [← placeExcised_succ positionApart] at isPlace
      exact excision.passage_to ((induction positionApart rfl).ignored found isIgnored)
        (outside_succ positionApart) apart isPlace
  | @around _ place closing _ joins induction =>
      rcases exists_placeExcised le place with ⟨position, positionApart, rfl⟩
      rcases exists_placeExcised le closing with ⟨behind, behindApart, rfl⟩
      rw [excision.joins_iff regular positionApart behindApart] at joins
      rw [← placeExcised_succ behindApart] at isPlace
      exact excision.passage_to ((induction positionApart rfl).around joins)
        (outside_succ behindApart) apart isPlace
  | @into _ place _ isOpening induction =>
      rcases exists_placeExcised le place with ⟨position, positionApart, rfl⟩
      rw [excision.symbol_eq position positionApart, excision.branches_eq] at isOpening
      rw [← placeExcised_succ positionApart] at isPlace
      exact excision.passage_to ((induction positionApart rfl).into isOpening)
        (outside_succ positionApart) apart isPlace

/-- From a position apart from the branch the same passages lead to others where the
branch has been cut out. -/
theorem passage_iff (excision : whole.Excision cut first last) (regular : whole.Regular)
    (apart : Apart first last position) (stopApart : Apart first last stop) :
    Passage cut (placeExcised first last position + 1) entered
        (placeExcised first last stop) ↔
      Passage whole (position + 1) entered stop := by
  rw [← placeExcised_succ apart]
  constructor
  · intro passage
    exact excision.passage_of_excised regular (outside_succ apart) passage stopApart rfl
  · intro passage
    exact excision.passage_excised regular passage (stopApart.imp Nat.le_of_lt id)

end Scene.Excision

variable {whole cut : Scene} {first last position : Nat}

/-! ## Left contexts -/

namespace LeftContext

theorem climb?_excised (excision : whole.Excision cut first last)
    (regular : whole.Regular) (shapes : List Shape)
    (outside : position ≤ first ∨ last < position) :
    climb? cut shapes (placeExcised first last position) =
        (climb? whole shapes position).map (List.map (placeExcised first last)) ∧
      ∀ found ∈ climb? whole shapes position, ∀ parent ∈ found,
        Apart first last parent := by
  induction shapes generalizing position with
  | nil =>
      refine ⟨rfl, ?_⟩
      rintro found ⟨⟩
      exact nofun
  | cons shape further induction =>
      rcases excision.parent?_excised regular outside with ⟨same, parentApart⟩
      rw [climb?, climb?, same]
      cases isParent : whole.parent? position with
      | none => exact ⟨rfl, by simp⟩
      | some parent =>
          have apart := parentApart parent isParent
          rcases induction (apart.imp Nat.le_of_lt id) with ⟨beyondSame, beyondApart⟩
          rw [Option.map_some]
          dsimp only
          rw [excision.hasShape_eq apart, beyondSame]
          cases whole.hasShape parent shape with
          | false => exact ⟨rfl, by simp⟩
          | true =>
              constructor
              · simp [Function.comp_def]
              · intro found isFound
                rcases Option.map_eq_some_iff.mp isFound with ⟨beyond, isBeyond, rfl⟩
                exact List.forall_mem_cons.mpr ⟨apart, beyondApart beyond isBeyond⟩

theorem match?_excised (excision : whole.Excision cut first last)
    (regular : whole.Regular) (context : LeftContext)
    (apart : Apart first last position) :
    match? cut context (placeExcised first last position) =
        (match? whole context position).map (List.map (placeExcised first last)) ∧
      ∀ found ∈ match? whole context position, ∀ parent ∈ found,
        Apart first last parent := by
  rcases climb?_excised excision regular context.reverse (apart.imp Nat.le_of_lt id) with
    ⟨same, climbedApart⟩
  rw [match?, match?, same]
  constructor
  · simp [Function.comp_def]
  · intro found isFound
    rcases Option.map_eq_some_iff.mp isFound with ⟨climbed, isClimbed, rfl⟩
    intro parent member
    exact climbedApart climbed isClimbed parent (List.mem_reverse.mp member)

end LeftContext

/-! ## Right contexts without branches -/

namespace ContextTree

def Straight : ContextTree → Prop
  | done => True
  | next _ beyond => beyond.Straight
  | branch _ _ _ => False

theorem straight_ofShapes {branches : BranchPair Symbol} {shapes : List Shape}
    (free : ∀ shape ∈ shapes, branches.contains shape.symbol = false) :
    (ofShapes branches shapes).Straight := by
  have read :
      (readBack branches shapes).1.Straight ∧ (readBack branches shapes).2 = [] := by
    induction shapes with
    | nil => exact ⟨trivial, rfl⟩
    | cons shape rest induction =>
        rcases List.forall_mem_cons.mp free with ⟨noBracket, restFree⟩
        simp only [BranchPair.contains, Bool.or_eq_false_iff,
          decide_eq_false_iff_not] at noBracket
        simp only [readBack, if_neg noBracket.1, if_neg noBracket.2]
        exact induction restFree
  simp only [ofShapes, read.2]
  exact read.1

theorem match?_next (scene : Scene) (shape : Shape) (beyond : ContextTree)
    (position : Nat) :
    (next shape beyond).match? scene position =
      (next shape beyond).matchNext? scene position := by
  rw [match?, matchBranches?]
  cases (next shape beyond).matchNext? scene position with
  | none => rfl
  | some level => rfl

theorem match?_excised (excision : whole.Excision cut first last)
    (regular : whole.Regular) {tree : ContextTree} (straight : tree.Straight)
    (apart : Apart first last position) :
    tree.match? cut (placeExcised first last position) =
        (tree.match? whole position).map (List.map (placeExcised first last)) ∧
      ∀ found ∈ tree.match? whole position, ∀ place ∈ found, Apart first last place := by
  induction tree generalizing position with
  | done =>
      refine ⟨rfl, ?_⟩
      rintro found ⟨⟩
      exact nofun
  | branch shape inside others => exact straight.elim
  | next shape beyond induction =>
      rcases excision.successor?_excised regular apart with ⟨same, followerApart⟩
      rw [match?_next, match?_next, matchNext?_next, matchNext?_next, same]
      cases isFollower : whole.successor? position with
      | none => exact ⟨rfl, nofun⟩
      | some follower =>
          have apart := followerApart follower isFollower
          rcases induction straight apart with ⟨beyondSame, beyondApart⟩
          rw [Option.map_some]
          dsimp only
          rw [excision.hasShape_eq apart, beyondSame]
          cases whole.hasShape follower shape with
          | false => exact ⟨rfl, nofun⟩
          | true =>
              constructor
              · simp [Function.comp_def]
              · intro found isFound
                rcases Option.map_eq_some_iff.mp isFound with ⟨level, isLevel, rfl⟩
                exact List.forall_mem_cons.mpr ⟨apart, beyondApart level isLevel⟩

end ContextTree

end LSystems
