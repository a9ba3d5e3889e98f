import LSystems.Proofs.Balance
import LSystems.Proofs.Context.Parents
import Mathlib.Data.List.Sort

/-!
# Ancestors

In a word with balanced brackets the walk back from a position meets its ancestors, the
nearest first: the visible positions in front of it that lie in no branch which is
closed on the way. A left context asks for the shapes of the nearest ones. Main
statement: `match?_eq_some_iff_ancestors`.
-/

namespace LSystems

/-! ## Brackets that are balanced -/

namespace BracketTable

variable {branches : BranchPair Symbol} {read : List Symbol}

namespace Progress

variable {progress : Progress} {position : Nat}

private def HasPartner (progress : Progress) (position : Nat) : Prop :=
  ∃ partner, progress.partners[position]? = some (some partner)

private theorem HasPartner.push (has : progress.HasPartner position) (opened : List Nat)
    (surplus : Nat) (last : Option Nat) :
    HasPartner ⟨progress.partners.push last, opened, surplus⟩ position := by
  rcases has with ⟨partner, found⟩
  have inside := (Array.getElem?_eq_some_iff.mp found).1
  refine ⟨partner, ?_⟩
  rw [Array.getElem?_push_lt inside, ← Array.getElem?_eq_getElem inside]
  exact found

private theorem hasPartner_set {innermost : Nat}
    (inside : position < progress.partners.size)
    (known : position = innermost ∨ progress.HasPartner position) (partner : Nat) :
    HasPartner ⟨progress.partners.setIfInBounds innermost (some partner), progress.opened,
      progress.surplus⟩ position := by
  by_cases same : innermost = position
  · refine ⟨partner, ?_⟩
    rw [same, Array.getElem?_setIfInBounds_self_of_lt inside]
  · refine (known.resolve_left (Ne.symm same)).imp fun other found => ?_
    rw [Array.getElem?_setIfInBounds_ne same]
    exact found

/-- Every bracket among the symbols in `read` is still open, has a partner, or closes
nothing. -/
private def Accounts (branches : BranchPair Symbol) (read : List Symbol)
    (progress : Progress) : Prop :=
  ∀ position symbol, read[position]? = some symbol → branches.contains symbol = true →
    position ∈ progress.opened ∨ progress.HasPartner position ∨ 0 < progress.surplus

private theorem Accounts.step (accounts : progress.Accounts branches read)
    (sound : Sound branches read progress) (symbol : Symbol) :
    (progress.step branches symbol).Accounts branches (read ++ [symbol]) := by
  intro position other found isBracket
  have known : position = progress.partners.size ∧ other = symbol ∨
      position < progress.partners.size ∧
        (position ∈ progress.opened ∨ progress.HasPartner position ∨
          0 < progress.surplus) := by
    rw [sound.size_eq]
    rcases Nat.lt_or_ge position read.length with old | new
    · rw [List.getElem?_append_left old] at found
      exact .inr ⟨old, accounts position other found isBracket⟩
    · rw [List.getElem?_append_right new, List.getElem?_singleton] at found
      split at found
      · exact .inl ⟨by omega, (Option.some.inj found).symm⟩
      · contradiction
  unfold Progress.step
  split
  · rcases known with ⟨isNew, _⟩ | ⟨_, isOpen | has | surplus⟩
    · exact .inl (List.mem_cons.mpr (.inl isNew))
    · exact .inl (List.mem_cons_of_mem _ isOpen)
    · exact .inr (.inl (has.push _ _ none))
    · exact .inr (.inr surplus)
  · next notOpening =>
      split
      · split
        · exact .inr (.inr (Nat.succ_pos _))
        · next innermost opened isOpened =>
            rw [isOpened] at known
            rcases known with ⟨isNew, _⟩ | ⟨inside, isOpen | has | surplus⟩
            · refine .inr (.inl ⟨innermost, ?_⟩)
              rw [Array.getElem?_push, Array.size_setIfInBounds, if_pos isNew]
            · rcases List.mem_cons.mp isOpen with isInnermost | isOpen
              · have closed :=
                  hasPartner_set inside (.inl isInnermost) progress.partners.size
                exact .inr (.inl (closed.push _ _ _))
              · exact .inl isOpen
            · have known : position = innermost ∨ progress.HasPartner position := .inr has
              have kept := hasPartner_set inside known progress.partners.size
              exact .inr (.inl (kept.push _ _ _))
            · exact .inr (.inr surplus)
      · next notClosing =>
          rcases known with ⟨_, rfl⟩ | ⟨_, isOpen | has | surplus⟩
          · simp [BranchPair.contains, notOpening, notClosing] at isBracket
          · exact .inl isOpen
          · exact .inr (.inl (has.push _ _ none))
          · exact .inr (.inr surplus)

private theorem Accounts.foldl (accounts : progress.Accounts branches read)
    (sound : Sound branches read progress) (symbols : List Symbol) :
    (symbols.foldl (Progress.step branches) progress).Accounts branches
      (read ++ symbols) := by
  induction symbols generalizing read progress with
  | nil => rwa [List.append_nil]
  | cons symbol rest induction =>
      have further := induction (accounts.step sound symbol) (sound.step symbol)
      rwa [List.append_assoc, List.singleton_append] at further

end Progress

theorem exists_partner?_of_validate {symbols : Array Symbol}
    (balanced : (ofSymbols branches symbols).validate = .ok ()) {position : Nat}
    {symbol : Symbol} (found : symbols[position]? = some symbol)
    (isBracket : branches.contains symbol = true) :
    ∃ partner, (ofSymbols branches symbols).partner? position = some partner := by
  have none : Progress.start.Accounts branches [] := nofun
  have accounts :=
    Progress.Accounts.foldl none (Progress.sound_start branches) symbols.toList
  rw [List.nil_append, Array.foldl_toList] at accounts
  have settled : (ofSymbols branches symbols).unmatchedClosing = 0 ∧
      (ofSymbols branches symbols).unmatchedOpening = 0 := by
    unfold validate at balanced
    split at balanced
    · contradiction
    · split at balanced
      · contradiction
      · omega
  rcases accounts position symbol (by simpa using found) isBracket with
    isOpen | has | surplus
  · have empty := List.length_eq_zero_iff.mp settled.2
    rw [empty] at isOpen
    contradiction
  · exact has.imp fun partner isPartner => Option.join_eq_some_iff.mpr isPartner
  · exact absurd settled.1 (Nat.ne_of_gt surplus)

end BracketTable

namespace Scene

variable {scene : Scene} {place position : Nat}

/-! ## Ancestors -/

instance decidableVisible (scene : Scene) (position : Nat) :
    Decidable (scene.Visible position) :=
  decidable_of_iff ((scene.symbol? position).any fun symbol =>
      !scene.ignored.contains symbol && !scene.branches.contains symbol) <| by
    simp [Visible, Option.any_eq_true]

/-- A visible position in front of another one, such that every branch that is closed
between the two opens behind it. -/
def IsAncestor (scene : Scene) (place position : Nat) : Prop :=
  place < position ∧ scene.Visible place ∧
    ∀ between < position, place < between →
      scene.symbol? between = some scene.branches.closing →
      ∃ partner ∈ scene.table.partner? between, place < partner

instance decidableIsAncestor (scene : Scene) (place position : Nat) :
    Decidable (scene.IsAncestor place position) :=
  inferInstanceAs (Decidable (_ ∧ _ ∧ _))

/-- The ancestors of a position in the order of the word. -/
def ancestors (scene : Scene) (position : Nat) : List Nat :=
  (List.range position).filter fun place => scene.IsAncestor place position

theorem mem_ancestors_iff : place ∈ scene.ancestors position ↔
    scene.IsAncestor place position := by
  simp only [ancestors, List.mem_filter, List.mem_range, decide_eq_true_eq]
  exact and_iff_right_of_imp And.left

theorem ancestors_sorted (scene : Scene) (position : Nat) :
    (scene.ancestors position).Pairwise (· < ·) :=
  List.pairwise_lt_range.filter _

theorem IsAncestor.trans {middle : Nat} (first : scene.IsAncestor place middle)
    (second : scene.IsAncestor middle position) : scene.IsAncestor place position := by
  rcases first with ⟨before, visible, firstClosed⟩
  rcases second with ⟨behind, ⟨symbol, found, _, noBracket⟩, secondClosed⟩
  refine ⟨Nat.lt_trans before behind, visible, fun between lt after isClosing => ?_⟩
  rcases Nat.lt_trichotomy between middle with front | rfl | back
  · exact firstClosed between front after isClosing
  · cases found.symm.trans isClosing
    simp [BranchPair.contains] at noBracket
  · rcases secondClosed between lt back isClosing with ⟨partner, isPartner, further⟩
    exact ⟨partner, isPartner, Nat.lt_trans before further⟩

theorem IsAncestor.restrict {middle : Nat} (ancestor : scene.IsAncestor place position)
    (after : place < middle) (le : middle ≤ position) : scene.IsAncestor place middle :=
  ⟨after, ancestor.2.1, fun between lt => ancestor.2.2 between (Nat.lt_of_lt_of_le lt le)⟩

/-! ## The walk back -/

structure Balanced (scene : Scene) : Prop extends scene.Regular where
  valid : scene.table.validate = .ok ()

theorem Balanced.joins (balanced : scene.Balanced) {symbol : Symbol}
    (found : scene.symbol? position = some symbol)
    (isBracket : scene.branches.contains symbol = true) :
    ∃ partner, scene.table.Joins position partner ∨
      scene.table.Joins partner position := by
  have valid := balanced.valid
  rw [balanced.table_eq] at valid ⊢
  rcases BracketTable.exists_partner?_of_validate valid found isBracket with
    ⟨partner, isPartner⟩
  exact ⟨partner, BracketTable.joins_of_partner? isPartner⟩

theorem Balanced.closing_ne_opening (balanced : scene.Balanced) {symbol : Symbol}
    (found : scene.symbol? position = some symbol)
    (isBracket : scene.branches.contains symbol = true) :
    scene.branches.closing ≠ scene.branches.opening := by
  intro same
  have noJoins : ∀ opening closing, ¬ scene.table.Joins opening closing :=
    fun _ _ joins =>
    balanced.not_opening_of_joins joins (same ▸ balanced.closing_of_joins joins)
  rcases balanced.joins found isBracket with ⟨partner, joins | joins⟩
  · exact noJoins position partner joins
  · exact noJoins partner position joins

theorem Balanced.joins_closing (balanced : scene.Balanced)
    (isClosing : scene.symbol? position = some scene.branches.closing) :
    ∃ opening, scene.table.Joins opening position := by
  have isBracket : scene.branches.contains scene.branches.closing = true := by
    simp [BranchPair.contains]
  rcases balanced.joins isClosing isBracket with ⟨partner, joins | joins⟩
  · have isOpening := balanced.opening_of_joins joins
    have same := Option.some.inj (isClosing.symm.trans isOpening)
    exact absurd same (balanced.closing_ne_opening isClosing isBracket)
  · exact ⟨partner, joins⟩

theorem Balanced.exists_partner_inside (balanced : scene.Balanced)
    {opening closing between : Nat} (joins : scene.table.Joins opening closing)
    (after : opening ≤ between) (before : between < closing)
    (isClosing : scene.symbol? between = some scene.branches.closing) :
    ∃ partner ∈ scene.table.partner? between, opening < partner := by
  rcases balanced.joins_closing isClosing with ⟨partner, inner⟩
  refine ⟨partner, inner.backward, ?_⟩
  by_contra outside
  rcases Nat.lt_trichotomy partner opening with front | rfl | back
  · have behind : opening < between := by
      refine Nat.lt_of_le_of_ne after ?_
      rintro rfl
      have same := (balanced.opening_of_joins joins).symm.trans isClosing
      exact balanced.not_opening_of_joins joins
        ((balanced.closing_of_joins joins).trans same.symm)
    rw [balanced.table_eq] at inner joins
    have := inner.nested joins front behind
    omega
  · cases inner.forward.symm.trans joins.forward
    omega
  · exact outside back

private theorem Balanced.closed_of_parent? (balanced : scene.Balanced) {parent : Nat}
    (found : scene.parent? position = some parent) :
    ∀ between < position, parent < between →
      scene.symbol? between = some scene.branches.closing →
      ∃ partner ∈ scene.table.partner? between, parent < partner := by
  intro between lt after isClosing
  fun_induction parent? scene position with
  | case1 => contradiction
  | case2 => contradiction
  | case3 before symbol isSymbol isPassed induction =>
      rcases Nat.lt_succ_iff_lt_or_eq.mp lt with inside | rfl
      · exact induction found inside
      · cases isSymbol.symm.trans isClosing
        rw [balanced.closing_seen, Bool.or_false, decide_eq_true_eq] at isPassed
        exact absurd isPassed
          (balanced.closing_ne_opening isClosing (by simp [BranchPair.contains]))
  | case4 before opening jump seen isSymbol induction =>
      have joins := balanced.branchStart?_eq_some_iff.mp jump
      have front := parent?_lt balanced.toRegular found
      rcases Nat.lt_succ_iff_lt_or_eq.mp lt with inside | rfl
      · rcases Nat.lt_or_ge between opening with earlier | later
        · exact induction found earlier
        · exact (balanced.exists_partner_inside joins later inside isClosing).imp
            fun _ further => ⟨further.1, Nat.lt_trans front further.2⟩
      · exact ⟨opening, joins.backward, front⟩
  | case5 => contradiction
  | case6 before symbol isSymbol seen notClosing =>
      cases found
      omega

theorem Balanced.isAncestor_of_parent? (balanced : scene.Balanced) {parent : Nat}
    (found : scene.parent? position = some parent) : scene.IsAncestor parent position :=
  ⟨parent?_lt balanced.toRegular found,
    ((parent?_eq_some_iff balanced.toRegular).mp found).1,
    balanced.closed_of_parent? found⟩

/-- The walk back finds the nearest ancestor, and all others are ancestors of it. -/
theorem Balanced.exists_parent? (balanced : scene.Balanced)
    (inside : position ≤ scene.word.size) (ancestor : scene.IsAncestor place position) :
    ∃ parent, scene.parent? position = some parent ∧
      (place = parent ∨ scene.IsAncestor place parent) := by
  rcases ancestor.2.1 with ⟨own, isOwn, seen, noBracket⟩
  simp only [BranchPair.contains, Bool.or_eq_false_iff,
    decide_eq_false_iff_not] at noBracket
  fun_induction parent? scene position with
  | case1 => exact absurd ancestor.1 (Nat.not_lt_zero place)
  | case2 before missing =>
      have outside := Array.getElem?_eq_none_iff.mp missing
      exact absurd (Nat.lt_of_succ_le inside) (Nat.not_lt.mpr outside)
  | case3 before symbol isSymbol isPassed induction =>
      rcases Nat.lt_succ_iff_lt_or_eq.mp ancestor.1 with front | rfl
      · exact induction (Nat.le_of_succ_le inside)
          (ancestor.restrict front (Nat.le_succ _))
      · cases isOwn.symm.trans isSymbol
        simp [noBracket.1, seen] at isPassed
  | case4 before opening jump isClosing notPassed induction =>
      have joins := balanced.branchStart?_eq_some_iff.mp jump
      have le := Nat.le_trans (Nat.le_of_lt joins.lt) (Nat.le_of_succ_le inside)
      rcases Nat.lt_succ_iff_lt_or_eq.mp ancestor.1 with front | rfl
      · rcases ancestor.2.2 before (Nat.lt_succ_self _) front isClosing with
          ⟨partner, isPartner, behind⟩
        cases joins.backward.symm.trans isPartner
        exact induction le
          (ancestor.restrict behind (Nat.le_succ_of_le (Nat.le_of_lt joins.lt)))
      · cases isOwn.symm.trans isClosing
        exact absurd rfl noBracket.2
  | case5 before noJump isClosing notPassed =>
      rcases balanced.joins_closing isClosing with ⟨opening, joins⟩
      cases noJump.symm.trans (balanced.branchStart?_eq_some_iff.mpr joins)
  | case6 before symbol isSymbol notPassed notClosing =>
      refine ⟨before, rfl, ?_⟩
      rcases Nat.lt_succ_iff_lt_or_eq.mp ancestor.1 with front | isParent
      · exact .inr (ancestor.restrict front (Nat.le_succ _))
      · exact .inl isParent

theorem Balanced.isAncestor_iff_of_parent? (balanced : scene.Balanced)
    (inside : position ≤ scene.word.size) {parent : Nat}
    (found : scene.parent? position = some parent) :
    scene.IsAncestor place position ↔ scene.IsAncestor place parent ∨ place = parent := by
  constructor
  · intro ancestor
    rcases balanced.exists_parent? inside ancestor with ⟨other, isOther, known⟩
    cases found.symm.trans isOther
    exact known.symm
  · rintro (ancestor | rfl)
    · exact ancestor.trans (balanced.isAncestor_of_parent? found)
    · exact balanced.isAncestor_of_parent? found

theorem Balanced.ancestors_eq (balanced : scene.Balanced)
    (inside : position ≤ scene.word.size) :
    scene.ancestors position =
      match scene.parent? position with
      | none => []
      | some parent => scene.ancestors parent ++ [parent] := by
  cases found : scene.parent? position with
  | none =>
      refine List.eq_nil_iff_forall_not_mem.mpr fun place member => ?_
      rcases balanced.exists_parent? inside (mem_ancestors_iff.mp member) with
        ⟨_, isParent, _⟩
      cases found.symm.trans isParent
  | some parent =>
      have sorted : (scene.ancestors parent ++ [parent]).Pairwise (· < ·) := by
        refine List.pairwise_append.mpr
          ⟨scene.ancestors_sorted parent, List.pairwise_singleton .., ?_⟩
        intro place member last isLast
        rw [List.mem_singleton.mp isLast]
        exact (mem_ancestors_iff.mp member).1
      refine (scene.ancestors_sorted position).eq_of_mem_iff sorted fun place => ?_
      rw [List.mem_append, List.mem_singleton, mem_ancestors_iff, mem_ancestors_iff,
        balanced.isAncestor_iff_of_parent? inside found]

end Scene

namespace LeftContext

variable {scene : Scene} {position : Nat}

theorem climb?_eq_some_iff (balanced : scene.Balanced) {shapes : List Shape}
    (inside : position ≤ scene.word.size) {found : List Nat} :
    climb? scene shapes position = some found ↔
      found <+: (scene.ancestors position).reverse ∧
        List.Forall₂ (fun place shape => scene.hasShape place shape = true)
          found shapes := by
  induction shapes generalizing position found with
  | nil =>
      rw [climb?, Option.some.injEq, List.forall₂_nil_right_iff]
      constructor
      · rintro rfl
        exact ⟨List.nil_prefix, rfl⟩
      · exact fun known => known.2.symm
  | cons shape further induction =>
      rw [climb?, balanced.ancestors_eq inside]
      cases isParent : scene.parent? position with
      | none =>
          constructor
          · intro impossible
            cases impossible
          · rintro ⟨isPrefix, haveShapes⟩
            cases haveShapes
            simp at isPrefix
      | some parent =>
          have parentInside : parent ≤ scene.word.size :=
            Nat.le_trans (Nat.le_of_lt (Scene.parent?_lt balanced.toRegular isParent))
              inside
          simp only [List.reverse_append, List.reverse_singleton, List.singleton_append]
          constructor
          · intro climbed
            split at climbed
            · next has =>
                rcases Option.map_eq_some_iff.mp climbed with ⟨above, isAbove, rfl⟩
                rcases (induction parentInside).mp isAbove with ⟨isPrefix, haveShapes⟩
                exact ⟨List.cons_prefix_cons.mpr ⟨rfl, isPrefix⟩, .cons has haveShapes⟩
            · contradiction
          · rintro ⟨isPrefix, haveShapes⟩
            cases haveShapes with
            | cons has haveShapes =>
                rcases List.cons_prefix_cons.mp isPrefix with ⟨rfl, isPrefix⟩
                rw [if_pos has, (induction parentInside).mpr ⟨isPrefix, haveShapes⟩]
                rfl

theorem match?_eq_some_iff_suffix (balanced : scene.Balanced) {context : LeftContext}
    (inside : position ≤ scene.word.size) {matched : List Nat} :
    match? scene context position = some matched ↔
      matched <:+ scene.ancestors position ∧
        List.Forall₂ (fun place shape => scene.hasShape place shape = true)
          matched context := by
  rw [match?, Option.map_eq_some_iff]
  constructor
  · rintro ⟨found, climbed, rfl⟩
    rcases (climb?_eq_some_iff balanced inside).mp climbed with ⟨isPrefix, haveShapes⟩
    refine ⟨?_, ?_⟩
    · simpa using List.reverse_suffix.mpr isPrefix
    · simpa using List.rel_reverse haveShapes
  · rintro ⟨isSuffix, haveShapes⟩
    refine ⟨matched.reverse, (climb?_eq_some_iff balanced inside).mpr ⟨?_, ?_⟩, ?_⟩
    · exact List.reverse_prefix.mpr isSuffix
    · exact List.rel_reverse haveShapes
    · exact List.reverse_reverse matched

/-- In a word with balanced brackets that are not ignored, a left context is found in
front of a position exactly if that many ancestors are there and the nearest of them, in
the order of the word, have its shapes. It stands for these ancestors. -/
theorem match?_eq_some_iff_ancestors {branches : BranchPair Symbol}
    {ignored : SymbolSet} {word : Word}
    (balanced : (BracketTable.ofSymbols branches word.symbols).validate = .ok ())
    (opening : ignored.contains branches.opening = false)
    (closing : ignored.contains branches.closing = false) {position : Nat}
    (inside : position ≤ word.size) (context : LeftContext) :
    let scene := Scene.ofWord branches ignored word
    let ancestors := scene.ancestors position
    let nearest := ancestors.drop (ancestors.length - context.length)
    (ancestors.Pairwise (· < ·) ∧
      ∀ place, place ∈ ancestors ↔ scene.IsAncestor place position) ∧
    ((match? scene context position).isSome = true ↔
      context.length ≤ ancestors.length ∧
        List.Forall₂ (fun place shape => scene.hasShape place shape = true)
        nearest context) ∧
    ∀ matched, match? scene context position = some matched →
      matched = nearest ∧ matched.Pairwise (· < ·) ∧
        ∀ place ∈ matched, place < position := by
  intro scene ancestors nearest
  have isBalanced : scene.Balanced :=
    ⟨Scene.regular_ofWord word opening closing, balanced⟩
  have sorted : ancestors.Pairwise (· < ·) := scene.ancestors_sorted position
  have found : ∀ matched, match? scene context position = some matched ↔
      matched <:+ ancestors ∧
        List.Forall₂ (fun place shape => scene.hasShape place shape = true)
          matched context :=
    fun matched => match?_eq_some_iff_suffix isBalanced inside
  have isNearest : ∀ matched, match? scene context position = some matched →
      matched = nearest := by
    intro matched isMatched
    rcases (found matched).mp isMatched with ⟨isSuffix, haveShapes⟩
    rw [List.suffix_iff_eq_drop.mp isSuffix, haveShapes.length_eq]
  refine ⟨⟨sorted, fun place => Scene.mem_ancestors_iff⟩, ⟨fun isSome => ?_, ?_⟩, ?_⟩
  · rcases Option.isSome_iff_exists.mp isSome with ⟨matched, isMatched⟩
    rcases (found matched).mp isMatched with ⟨isSuffix, haveShapes⟩
    refine ⟨?_, isNearest matched isMatched ▸ haveShapes⟩
    rw [← haveShapes.length_eq]
    exact isSuffix.length_le
  · rintro ⟨_, haveShapes⟩
    exact Option.isSome_iff_exists.mpr
      ⟨nearest, (found nearest).mpr ⟨List.drop_suffix .., haveShapes⟩⟩
  · intro matched isMatched
    have isSuffix := ((found matched).mp isMatched).1
    refine ⟨isNearest matched isMatched, sorted.sublist isSuffix.sublist,
      fun place member => ?_⟩
    exact (Scene.mem_ancestors_iff.mp (isSuffix.mem member)).1

/-- In `A[B]C+[D[E]F]G` with `+` ignored, the ancestors of `F` are `A`, `C` and `D`. -/
theorem match?_eq_some_iff_ancestors_siblings :
    let word := Word.ofSymbols [2, 0, 3, 1, 4, 9, 0, 5, 0, 6, 1, 7, 1, 8]
    let scene := Scene.ofWord ⟨0, 1⟩ ⟨[9]⟩ word
    (BracketTable.ofSymbols ⟨0, 1⟩ word.symbols).validate = .ok () ∧
      SymbolSet.contains ⟨[9]⟩ 0 = false ∧ SymbolSet.contains ⟨[9]⟩ 1 = false ∧
      11 ≤ word.size ∧
      scene.ancestors 11 = [0, 4, 7] ∧ match? scene [⟨4, 0⟩, ⟨5, 0⟩] 11 = some [4, 7] ∧
      [4, 7] = [0, 4, 7].drop (3 - 2) ∧ [4, 7].Pairwise (· < ·) ∧
      ∀ place ∈ [4, 7], place < 11 := by
  intro word scene
  have balanced : (BracketTable.ofSymbols ⟨0, 1⟩ word.symbols).validate = .ok () :=
    BracketTable.validate_eq_ok_iff.mpr (by decide +kernel)
  have areAncestors : scene.ancestors 11 = [0, 4, 7] := by decide +kernel
  have found : match? scene [⟨4, 0⟩, ⟨5, 0⟩] 11 = some [4, 7] := by decide +kernel
  have inside : 11 ≤ word.size := by decide
  have opening : SymbolSet.contains ⟨[9]⟩ 0 = false := rfl
  have closing : SymbolSet.contains ⟨[9]⟩ 1 = false := rfl
  have isNearest := (match?_eq_some_iff_ancestors balanced opening closing inside
    [⟨4, 0⟩, ⟨5, 0⟩]).2.2 [4, 7] found
  rw [areAncestors] at isNearest
  exact ⟨balanced, opening, closing, inside, areAncestors, found, isNearest⟩

end LeftContext

end LSystems
