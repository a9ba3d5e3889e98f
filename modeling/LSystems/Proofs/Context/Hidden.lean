import LSystems.Proofs.Context.Pruning
import LSystems.Proofs.Context.Search
import LSystems.Proofs.Context.Walks

/-!
# Contexts among hidden symbols

Every walk of a scene finds what it finds where the ignored symbols are not there at
all, at its new place, and so does every search for a context. Main statements:
`LeftContext.match?_pruned` and `ContextTree.match?_pruned`.
-/

namespace LSystems

namespace Scene

namespace Pruning

variable {whole pruned : Scene} {place : Nat → Nat} {position : Nat}

theorem hasShape_eq (pruning : whole.Pruning pruned place) (seen : whole.Seen position)
    (shape : Shape) :
    pruned.hasShape (place position) shape = whole.hasShape position shape := by
  rw [hasShape, hasShape, pruning.symbol_eq position seen, pruning.arity_eq position seen]

/-! ## Brackets -/

theorem seen_of_joins (regular : whole.Regular) {first second : Nat}
    (joins : whole.table.Joins first second) : whole.Seen first ∧ whole.Seen second :=
  ⟨⟨_, regular.opening_of_joins joins, regular.opening_seen⟩,
    ⟨_, regular.closing_of_joins joins, regular.closing_seen⟩⟩

theorem behindBranch?_eq (pruning : whole.Pruning pruned place) (regular : whole.Regular)
    (seen : whole.Seen position) :
    pruned.behindBranch? (place position) = (whole.behindBranch? position).map place := by
  rw [behindBranch?, behindBranch?, pruning.partner_eq position seen]
  cases isPartner : whole.table.partner? position with
  | none => rfl
  | some partner =>
      rw [Option.map_some]
      dsimp only
      rw [regular.table_eq] at isPartner
      rcases BracketTable.joins_of_partner? isPartner with joins | joins
      · rw [← regular.table_eq] at joins
        have alsoSeen := (seen_of_joins regular joins).2
        rw [if_pos joins.lt, if_pos (pruning.place_lt position seen partner joins.lt),
          Option.map_some, pruning.place_seen partner alsoSeen]
      · rw [← regular.table_eq] at joins
        have alsoSeen := (seen_of_joins regular joins).1
        rw [if_neg (Nat.lt_asymm joins.lt),
          if_neg (Nat.lt_asymm (pruning.place_lt partner alsoSeen position joins.lt)),
          Option.map_none]

theorem branchStart?_eq (pruning : whole.Pruning pruned place) (regular : whole.Regular)
    (seen : whole.Seen position) :
    pruned.branchStart? (place position) = (whole.branchStart? position).map place := by
  rw [branchStart?, branchStart?, pruning.partner_eq position seen]
  cases isPartner : whole.table.partner? position with
  | none => rfl
  | some partner =>
      rw [Option.map_some]
      dsimp only
      rw [regular.table_eq] at isPartner
      rcases BracketTable.joins_of_partner? isPartner with joins | joins
      · rw [← regular.table_eq] at joins
        rw [if_neg (Nat.lt_asymm joins.lt),
          if_neg (Nat.lt_asymm (pruning.place_lt position seen partner joins.lt)),
          Option.map_none]
      · rw [← regular.table_eq] at joins
        have alsoSeen := (seen_of_joins regular joins).1
        rw [if_pos joins.lt, if_pos (pruning.place_lt partner alsoSeen position joins.lt),
          Option.map_some]

/-! ## Walks -/

theorem forward?_pruned (pruning : whole.Pruning pruned place) (regular : whole.Regular)
    (position : Nat) :
    pruned.forward? (place position) = (whole.forward? position).map place := by
  fun_induction whole.forward? position with
  | case1 position missing =>
      rw [forward?_eq, pruning.missing position missing]
      rfl
  | case2 position symbol found isIgnored induction =>
      rw [← pruning.place_ignored position symbol found isIgnored]
      exact induction
  | case3 position behind jump found notIgnored induction =>
      have seen : whole.Seen position := ⟨_, found, regular.opening_seen⟩
      rw [forward?_eq, pruning.symbol_eq position seen, found]
      simp only [pruning.none_ignored, pruning.branches_eq,
        pruning.behindBranch?_eq regular seen, jump, Option.map_some,
        Option.bind_some, if_true]
      exact induction
  | case4 position jump found notIgnored =>
      have seen : whole.Seen position := ⟨_, found, regular.opening_seen⟩
      rw [forward?_eq, pruning.symbol_eq position seen, found]
      simp [pruning.none_ignored, pruning.branches_eq,
        pruning.behindBranch?_eq regular seen, jump]
  | case5 position found notIgnored notOpening =>
      have seen : whole.Seen position := ⟨_, found, regular.closing_seen⟩
      rw [forward?_eq, pruning.symbol_eq position seen, found]
      simp [pruning.none_ignored, pruning.branches_eq, notOpening]
  | case6 position symbol found notIgnored notOpening notClosing =>
      have seen : whole.Seen position := ⟨symbol, found, by simpa using notIgnored⟩
      rw [forward?_eq, pruning.symbol_eq position seen, found]
      simp [pruning.none_ignored, pruning.branches_eq, notOpening, notClosing]

theorem branchHeads_pruned (pruning : whole.Pruning pruned place)
    (regular : whole.Regular) (position : Nat) :
    pruned.branchHeads (place position) = (whole.branchHeads position).map place := by
  fun_induction whole.branchHeads position with
  | case1 position missing =>
      rw [branchHeads_eq, pruning.missing position missing]
      rfl
  | case2 position symbol found isIgnored induction =>
      rw [← pruning.place_ignored position symbol found isIgnored]
      exact induction
  | case3 position found notIgnored inside behind =>
      have seen : whole.Seen position := ⟨_, found, regular.opening_seen⟩
      rw [branchHeads_eq, pruning.symbol_eq position seen, found]
      simp only [pruning.none_ignored, pruning.branches_eq,
        pruning.behindBranch?_eq regular seen, Bool.false_eq_true, if_false, if_true,
        ← pruning.place_seen position seen, inside,
        List.map_append]
      congr 1
      split
      · next place jump =>
          rw [jump, Option.map_some, Option.map_some, Option.getD_some, behind _ jump]
      · next none =>
          rw [none, Option.map_none, Option.map_none, Option.getD_none, List.map_nil]
  | case4 position found notIgnored notOpening =>
      have seen : whole.Seen position := ⟨_, found, regular.closing_seen⟩
      rw [branchHeads_eq, pruning.symbol_eq position seen, found]
      simp [pruning.none_ignored, pruning.branches_eq, notOpening]
  | case5 position symbol found notIgnored notOpening notClosing =>
      have seen : whole.Seen position := ⟨symbol, found, by simpa using notIgnored⟩
      rw [branchHeads_eq, pruning.symbol_eq position seen, found]
      simp [pruning.none_ignored, pruning.branches_eq, notOpening, notClosing]

theorem branchesFrom_pruned (pruning : whole.Pruning pruned place)
    (regular : whole.Regular) (position : Nat) :
    pruned.branchesFrom (place position) = (whole.branchesFrom position).map place := by
  fun_induction whole.branchesFrom position with
  | case1 position missing =>
      rw [branchesFrom_eq, pruning.missing position missing]
      rfl
  | case2 position symbol found isIgnored induction =>
      rw [← pruning.place_ignored position symbol found isIgnored]
      exact induction
  | case3 position found notIgnored behind =>
      have seen : whole.Seen position := ⟨_, found, regular.opening_seen⟩
      rw [branchesFrom_eq, pruning.symbol_eq position seen, found]
      simp only [pruning.none_ignored, pruning.branches_eq,
        pruning.behindBranch?_eq regular seen, Bool.false_eq_true, if_false, if_true,
        ← pruning.place_seen position seen,
        pruning.branchHeads_pruned regular, List.map_append]
      congr 1
      split
      · next place jump =>
          rw [jump, Option.map_some, Option.map_some, Option.getD_some, behind _ jump]
      · next none =>
          rw [none, Option.map_none, Option.map_none, Option.getD_none, List.map_nil]
  | case4 position symbol found notIgnored notOpening =>
      have seen : whole.Seen position := ⟨symbol, found, by simpa using notIgnored⟩
      rw [branchesFrom_eq, pruning.symbol_eq position seen, found]
      simp [pruning.none_ignored, pruning.branches_eq, notOpening]

theorem successor?_pruned (pruning : whole.Pruning pruned place) (regular : whole.Regular)
    (seen : whole.Seen position) :
    pruned.successor? (place position) = (whole.successor? position).map place := by
  rw [successor?, successor?, ← pruning.place_seen position seen]
  exact pruning.forward?_pruned regular (position + 1)

theorem children_pruned (pruning : whole.Pruning pruned place) (regular : whole.Regular)
    (seen : whole.Seen position) :
    pruned.children (place position) = (whole.children position).map place := by
  rw [children, children, ← pruning.place_seen position seen]
  exact pruning.branchesFrom_pruned regular (position + 1)

theorem parent?_pruned (pruning : whole.Pruning pruned place) (regular : whole.Regular)
    (inside : position ≤ whole.word.size) :
    pruned.parent? (place position) = (whole.parent? position).map place := by
  fun_induction whole.parent? position with
  | case1 =>
      rw [pruning.place_zero, parent?]
      rfl
  | case2 before missing =>
      exact absurd (Array.getElem?_eq_none_iff.mp missing) (Nat.not_le_of_lt inside)
  | case3 before symbol found isPassed induction =>
      have further := induction (Nat.le_of_succ_le inside)
      by_cases isIgnored : whole.ignored.contains symbol = true
      · rw [pruning.place_ignored before symbol found isIgnored]
        exact further
      · have seen : whole.Seen before := ⟨symbol, found, by simpa using isIgnored⟩
        have isOpening : symbol = whole.branches.opening := by
          simpa [isIgnored] using isPassed
        rw [pruning.place_seen before seen, parent?_succ_eq,
          pruning.symbol_eq before seen, found]
        simpa [pruning.branches_eq, isOpening] using further
  | case4 before start jump found notPassed induction =>
      simp only [Bool.or_eq_true, decide_eq_true_eq, not_or] at notPassed
      have seen : whole.Seen before := ⟨_, found, regular.closing_seen⟩
      have further := induction (by have := branchStart_lt jump; omega)
      rw [pruning.place_seen before seen, parent?_succ_eq,
        pruning.symbol_eq before seen, found]
      simpa [pruning.none_ignored, pruning.branches_eq, notPassed.1,
        pruning.branchStart?_eq regular seen, jump] using further
  | case5 before jump found notPassed =>
      simp only [Bool.or_eq_true, decide_eq_true_eq, not_or] at notPassed
      have seen : whole.Seen before := ⟨_, found, regular.closing_seen⟩
      rw [pruning.place_seen before seen, parent?_succ_eq,
        pruning.symbol_eq before seen, found]
      simp [pruning.none_ignored, pruning.branches_eq, notPassed.1,
        pruning.branchStart?_eq regular seen, jump]
  | case6 before symbol found notPassed notClosing =>
      simp only [Bool.or_eq_true, decide_eq_true_eq, not_or] at notPassed
      have seen : whole.Seen before := ⟨symbol, found, by simpa using notPassed.2⟩
      rw [pruning.place_seen before seen, parent?_succ_eq,
        pruning.symbol_eq before seen, found]
      simp [pruning.none_ignored, pruning.branches_eq, notPassed.1, notClosing]

end Pruning

end Scene

/-! ## Left contexts -/

section

variable {whole pruned : Scene} {place : Nat → Nat} {position : Nat}

namespace LeftContext

theorem seen_of_climb? (regular : whole.Regular) {shapes : List Shape} {found : List Nat}
    (climbed : climb? whole shapes position = some found) :
    ∀ parent ∈ found, whole.Seen parent := by
  induction shapes generalizing position found with
  | nil =>
      cases climbed
      exact nofun
  | cons shape further induction =>
      rcases climb?_cons_eq_some_iff.mp climbed with
        ⟨parent, above, isParent, _, isAbove, rfl⟩
      have visible := ((Scene.parent?_eq_some_iff regular).mp isParent).1
      exact List.forall_mem_cons.mpr ⟨visible.seen, induction isAbove⟩

theorem climb?_pruned (pruning : whole.Pruning pruned place) (regular : whole.Regular)
    (shapes : List Shape) (inside : position ≤ whole.word.size) :
    climb? pruned shapes (place position) =
      (climb? whole shapes position).map (List.map place) := by
  induction shapes generalizing position with
  | nil => rfl
  | cons shape further induction =>
      rw [climb?, climb?, pruning.parent?_pruned regular inside]
      cases isParent : whole.parent? position with
      | none => rfl
      | some parent =>
          have visible := ((Scene.parent?_eq_some_iff regular).mp isParent).1
          have before : parent ≤ whole.word.size :=
            Nat.le_of_lt (Nat.lt_of_lt_of_le (Scene.parent?_lt regular isParent) inside)
          rw [Option.map_some]
          dsimp only
          rw [pruning.hasShape_eq visible.seen, induction before]
          cases whole.hasShape parent shape with
          | true => simp [Function.comp_def]
          | false => rfl

theorem match?_pruned (pruning : whole.Pruning pruned place) (regular : whole.Regular)
    (context : LeftContext) (inside : position ≤ whole.word.size) :
    match? pruned context (place position) =
      (match? whole context position).map (List.map place) := by
  rw [match?, match?, climb?_pruned pruning regular _ inside]
  simp [Function.comp_def]

theorem seen_of_match? (regular : whole.Regular) {context : LeftContext}
    {found : List Nat} (matched : match? whole context position = some found) :
    ∀ place ∈ found, whole.Seen place := by
  rcases Option.map_eq_some_iff.mp matched with ⟨climbed, isClimbed, rfl⟩
  intro place member
  exact seen_of_climb? regular isClimbed place (List.mem_reverse.mp member)

end LeftContext

/-! ## Right contexts -/

theorem picks_map {α β : Type} (change : α → β) (row : List α) :
    picks (row.map change) =
      (picks row).map fun (member, others) => (change member, others.map change) := by
  induction row with
  | nil => rfl
  | cons head rest induction => simp [picks, induction, Function.comp_def]

theorem mem_of_mem_picks {Member : Type} {list : List Member}
    {pick : Member × List Member} (isPick : pick ∈ picks list) :
    pick.1 ∈ list ∧ ∀ other ∈ pick.2, other ∈ list := by
  rcases List.append_of_mem isPick with ⟨before, after, split⟩
  rcases eq_append_of_picks split with ⟨isList, isOthers⟩
  constructor
  · rw [isList]
    exact List.mem_append_right _ List.mem_cons_self
  · intro other member
    rw [isOthers] at member
    rw [isList]
    rcases List.mem_append.mp member with front | back
    · exact List.mem_append_left _ front
    · exact List.mem_append_right _ (List.mem_cons_of_mem _ back)

theorem findSome?_congr {Member Result : Type} {list : List Member}
    {search other : Member → Option Result}
    (same : ∀ member ∈ list, search member = other member) :
    list.findSome? search = list.findSome? other := by
  induction list with
  | nil => rfl
  | cons head rest induction =>
      rcases List.forall_mem_cons.mp same with ⟨atHead, atRest⟩
      rw [List.findSome?_cons, List.findSome?_cons, atHead, induction atRest]

namespace ContextTree

structure FindsSeen (scene : Scene) (tree : ContextTree) : Prop where
  next : ∀ position level, tree.matchNext? scene position = some level →
    ∀ place ∈ level, scene.Seen place
  branches : ∀ free branches, tree.matchBranches? scene free = some branches →
    (∀ place ∈ free, scene.Seen place) → ∀ place ∈ branches, scene.Seen place

theorem FindsSeen.match? {tree : ContextTree} (finds : tree.FindsSeen whole)
    (regular : whole.Regular) {found : List Nat}
    (matched : tree.match? whole position = some found) :
    ∀ place ∈ found, whole.Seen place := by
  rcases match?_eq_some_iff.mp matched with ⟨level, branches, isLevel, areBranches, rfl⟩
  have children : ∀ child ∈ whole.children position, whole.Seen child := fun _ isChild =>
    ((Scene.mem_branchesFrom_iff regular).mp isChild).1.seen
  intro place member
  rcases List.mem_append.mp member with member | member
  · exact finds.branches _ _ areBranches children place member
  · exact finds.next _ _ isLevel place member

theorem findsSeen (regular : whole.Regular) (tree : ContextTree) :
    tree.FindsSeen whole := by
  induction tree with
  | done =>
      constructor
      · rintro position _ ⟨⟩
        exact nofun
      · rintro free _ ⟨⟩
        exact nofun
  | next shape beyond induction =>
      constructor
      · intro position level isLevel
        rw [matchNext?_next] at isLevel
        split at isLevel
        · contradiction
        · next follower isFollower =>
            split at isLevel
            · rcases Option.map_eq_some_iff.mp isLevel with ⟨further, isFurther, rfl⟩
              have visible := ((Scene.forward?_eq_some_iff regular).mp isFollower).1
              exact List.forall_mem_cons.mpr
                ⟨visible.seen, induction.match? regular isFurther⟩
            · contradiction
      · rintro free _ ⟨⟩
        exact nofun
  | branch shape inside others inner outer =>
      refine ⟨outer.next, fun free branches areBranches seen => ?_⟩
      rw [matchBranches?_branch] at areBranches
      rcases List.exists_of_findSome?_eq_some areBranches with
        ⟨⟨head, rest⟩, isPick, found⟩
      rcases mem_of_mem_picks isPick with ⟨isHead, areRest⟩
      dsimp only at found
      split at found
      · rcases Option.bind_eq_some_iff.mp found with ⟨positions, isInner, found⟩
        rcases Option.map_eq_some_iff.mp found with ⟨further, isFurther, rfl⟩
        refine List.forall_mem_cons.mpr ⟨seen head isHead, fun place member => ?_⟩
        rcases List.mem_append.mp member with member | member
        · exact inner.match? regular isInner place member
        · exact outer.branches _ _ isFurther
            (fun other isOther => seen other (areRest other isOther))
            place member
      · contradiction

/-- Both parts of a search find the same where the ignored symbols are not there. -/
structure Pruned (whole pruned : Scene) (place : Nat → Nat) (tree : ContextTree) :
    Prop where
  next : ∀ position, whole.Seen position → tree.matchNext? pruned (place position) =
    (tree.matchNext? whole position).map (List.map place)
  branches : ∀ free, (∀ position ∈ free, whole.Seen position) →
    tree.matchBranches? pruned (free.map place) =
      (tree.matchBranches? whole free).map (List.map place)

theorem Pruned.match? {tree : ContextTree} (parts : tree.Pruned whole pruned place)
    (pruning : whole.Pruning pruned place) (regular : whole.Regular)
    (seen : whole.Seen position) :
    tree.match? pruned (place position) =
      (tree.match? whole position).map (List.map place) := by
  have children : ∀ child ∈ whole.children position, whole.Seen child := fun _ isChild =>
    ((Scene.mem_branchesFrom_iff regular).mp isChild).1.seen
  rw [ContextTree.match?, ContextTree.match?, parts.next position seen,
    pruning.children_pruned regular seen, parts.branches _ children]
  cases tree.matchNext? whole position with
  | none => rfl
  | some level => simp [Function.comp_def]

theorem pruned_of_pruning (pruning : whole.Pruning pruned place) (regular : whole.Regular)
    (tree : ContextTree) : tree.Pruned whole pruned place := by
  induction tree with
  | done => exact ⟨fun _ _ => rfl, fun _ _ => rfl⟩
  | next shape beyond induction =>
      refine ⟨fun position seen => ?_, fun _ _ => rfl⟩
      rw [matchNext?_next, matchNext?_next, pruning.successor?_pruned regular seen]
      cases isFollower : whole.successor? position with
      | none => rfl
      | some follower =>
          have visible := ((Scene.forward?_eq_some_iff regular).mp isFollower).1
          rw [Option.map_some]
          dsimp only
          rw [pruning.hasShape_eq visible.seen,
            induction.match? pruning regular visible.seen]
          cases whole.hasShape follower shape with
          | true => simp [Function.comp_def]
          | false => rfl
  | branch shape inside others inner outer =>
      refine ⟨outer.next, fun free seen => ?_⟩
      rw [matchBranches?_branch, matchBranches?_branch, picks_map, List.findSome?_map,
        List.map_findSome?]
      apply findSome?_congr
      rintro ⟨head, rest⟩ isPick
      rcases mem_of_mem_picks isPick with ⟨isHead, areRest⟩
      have restSeen : ∀ other ∈ rest, whole.Seen other := fun other isOther =>
        seen other (areRest other isOther)
      simp only [Function.comp_apply]
      rw [pruning.hasShape_eq (seen head isHead),
        inner.match? pruning regular (seen head isHead), outer.branches rest restSeen]
      cases whole.hasShape head shape with
      | false => rfl
      | true =>
          cases inside.match? whole head with
          | none => rfl
          | some positions => simp [Function.comp_def]

end ContextTree

end

end LSystems
