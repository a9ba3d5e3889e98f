import LSystems.Proofs.Production.Outline
import LSystems.Proofs.Production.Parts

/-!
# Sections of rules

The marks at which a rule is cut are all that its sections have lost: put between the
sections again, they give the text of the rule, and every section stands where it says.
Main statements: `Outline.cuts_of_ofText?`, `ContextOutline.cuts_of_ofFragment`.
-/

namespace LSystems

def Fragment.behindMark (mark : Char) : Option Fragment → List Char
  | some fragment => mark :: fragment.text
  | none => []

def Fragment.beforeMark (mark : Char) : Option Fragment → List Char
  | some fragment => fragment.text ++ [mark]
  | none => []

open Fragment

namespace Outline

variable {text before behind : List Char}

theorem splitArrow?_eq (split : splitArrow? text = some (before, behind)) :
    text = before ++ '-' :: '>' :: behind := by
  fun_induction splitArrow? text generalizing before with
  | case1 rest =>
      cases split
      rfl
  | case2 => contradiction
  | case3 character rest _ induction =>
      rcases Option.map_eq_some_iff.mp split with ⟨⟨inner, _⟩, isSplit, equal⟩
      cases equal
      rw [List.cons_append, ← induction isSplit]

theorem splitProbability?_eq {inside : List Char} {span : Span} {rest : Fragment}
    (split : splitProbability? text = some (inside, span, rest)) :
    ∃ announced, text = announced ++ '|' :: rest.text ∧
      rest.offset = announced.length + 1 ∧
      span.stop ≤ announced.length := by
  unfold splitProbability? at split
  split at split
  · next named isNamed =>
      split at split
      · next opened isOpened =>
          split at split
          · contradiction
          · next inside closed isSplit =>
              split at split
              · next further isFurther =>
                  cases split
                  have afterName : named <:+ text := by
                    have whole := dropBlanks_isSuffix text
                    rw [isNamed] at whole
                    exact (List.suffix_cons ..).trans whole
                  have afterOpening : opened <:+ named := by
                    have whole := dropBlanks_isSuffix named
                    rw [isOpened] at whole
                    exact (List.suffix_cons ..).trans whole
                  have afterClosing : closed <:+ opened :=
                    (List.suffix_cons ')' closed).trans
                      ⟨inside, (splitClosing?_eq isSplit).symm⟩
                  have barred : '|' :: further <:+ closed :=
                    isFurther ▸ dropBlanks_isSuffix closed
                  have isSuffix := afterClosing.trans (afterOpening.trans afterName)
                  rcases barred.trans isSuffix with ⟨announced, isText⟩
                  have length := congrArg List.length isText
                  have bound := barred.length_le
                  have shorter := (afterClosing.trans afterOpening).length_le
                  simp only [List.length_append, List.length_cons] at length bound
                  refine ⟨announced, isText.symm, ?_, ?_⟩
                  · dsimp only
                    omega
                  · dsimp only [Span.stop]
                    omega
              · contradiction
      · contradiction
  · contradiction

theorem splitMark_eq {mark : Char} {fragment context : Fragment}
    {condition : Option Fragment}
    (split : splitMark mark fragment = (context, condition)) :
    fragment.text = context.text ++ behindMark mark condition ∧
      context.offset = fragment.offset ∧ mark ∉ context.text ∧
      ∀ part ∈ condition, part.offset = fragment.offset + context.text.length + 1 := by
  rcases fragment with ⟨offset, text⟩
  by_cases member : mark ∈ text
  · rcases List.eq_append_cons_of_mem member with ⟨before, behind, rfl, absent⟩
    rw [splitMark_of_not_mem_before absent] at split
    cases split
    refine ⟨rfl, rfl, absent, ?_⟩
    rintro _ ⟨⟩
    rfl
  · rw [splitMark_of_not_mem member] at split
    cases split
    exact ⟨(List.append_nil _).symm, rfl, member, nofun⟩

/-- The outline cuts the text into these sections, with `lead` in front of the pattern. -/
structure Cuts (outline : Outline) (lead text : List Char) : Prop where
  text_eq : text = lead ++ (outline.context.text ++
    (behindMark ':' outline.condition ++ '-' :: '>' :: outline.replacement.text))
  context : outline.context.offset = lead.length
  condition : ∀ part ∈ outline.condition,
    part.offset = lead.length + outline.context.text.length + 1
  replacement : outline.replacement.offset + outline.replacement.text.length = text.length
  colonless : ':' ∉ outline.context.text
  lead : outline.probability = none ∧ lead = [] ∨ ∃ inside span announced,
    outline.probability = some (inside, span) ∧ lead = announced ++ ['|'] ∧
      span.stop ≤ announced.length

theorem cuts_of_ofText? {outline : Outline} (isOutline : ofText? text = some outline) :
    ∃ lead, outline.Cuts lead text := by
  unfold ofText? at isOutline
  rcases Option.bind_eq_some_iff.mp isOutline with ⟨⟨before, behind⟩, isArrow, isOutline⟩
  have arrow := splitArrow?_eq isArrow
  have length : before.length + 2 + behind.length = text.length := by
    rw [arrow]
    simp
    omega
  dsimp only at isOutline
  split at isOutline
  · next inside span rest isProbability =>
      rcases splitProbability?_eq isProbability with ⟨announced, isBefore, starts, stop⟩
      cases isSplit : splitMark ':' rest with
      | mk context condition =>
          rw [isSplit] at isOutline
          cases isOutline
          rcases splitMark_eq isSplit with ⟨isRest, isContext, colonless, isCondition⟩
          have leadLength : (announced ++ ['|']).length = rest.offset := by simp [starts]
          refine ⟨announced ++ ['|'], ?_, ?_, ?_, length, colonless,
            .inr ⟨_, _, _, rfl, rfl, stop⟩⟩
          · rw [arrow, isBefore, isRest]
            simp
          · rw [leadLength, isContext]
          · rw [leadLength]
            exact isCondition
  · next isPlain =>
      cases isSplit : splitMark ':' ⟨0, before⟩ with
      | mk context condition =>
          rw [isSplit] at isOutline
          cases isOutline
          rcases splitMark_eq isSplit with ⟨isBefore, isContext, colonless, isCondition⟩
          refine ⟨[], ?_, isContext, isCondition, length, colonless, .inl ⟨rfl, rfl⟩⟩
          rw [arrow]
          dsimp only at isBefore
          rw [isBefore]
          simp

theorem ofText?_eq_some {fault : Error} {outline : Outline}
    (done : (match ofText? text with
      | some outline => Except.ok outline
      | none => .error fault) = .ok outline) : ofText? text = some outline := by
  split at done
  · next isSome =>
      cases done
      exact isSome
  · contradiction

variable {outline : Outline} {lead : List Char}

theorem Cuts.context_partOf (cuts : outline.Cuts lead text) :
    outline.context.PartOf ⟨0, text⟩ :=
  ⟨lead, _, cuts.text_eq, cuts.context.trans (Nat.zero_add _).symm⟩

theorem Cuts.condition_partOf (cuts : outline.Cuts lead text) :
    ∀ part ∈ outline.condition, part.PartOf ⟨0, text⟩ := by
  intro part isCondition
  have whole := cuts.text_eq
  rw [isCondition] at whole
  refine ⟨lead ++ (outline.context.text ++ [':']),
    '-' :: '>' :: outline.replacement.text, ?_, ?_⟩
  · simpa [behindMark] using whole
  · rw [cuts.condition part isCondition]
    simp [Nat.add_assoc]

theorem Cuts.replacement_partOf (cuts : outline.Cuts lead text) :
    outline.replacement.PartOf ⟨0, text⟩ := by
  refine ⟨lead ++
    (outline.context.text ++ (behindMark ':' outline.condition ++ ['-', '>'])),
    [], ?_, ?_⟩
  · simpa using cuts.text_eq
  · have stop := cuts.replacement
    have length := congrArg List.length cuts.text_eq
    simp only [List.length_append, List.length_cons, List.length_nil] at length ⊢
    omega

theorem Cuts.stop_le (cuts : outline.Cuts lead text) :
    ∀ announced ∈ outline.probability, announced.2.stop ≤ text.length := by
  rintro ⟨inside, span⟩ isProbability
  rcases cuts.lead with ⟨none, _⟩ | ⟨_, _, announced, isSome, isLead, stop⟩
  · cases none.symm.trans isProbability
  · cases isSome.symm.trans isProbability
    rw [cuts.text_eq, isLead]
    simp only [List.length_append]
    omega

end Outline

namespace ContextOutline

variable {wanted : Char} {text : List Char}

theorem not_mem_of_filter_zipIdx {start : Nat}
    (none : ((text.zipIdx start).filter fun (character, _) => character = wanted) = []) :
    wanted ∉ text := by
  intro member
  rcases List.mem_iff_getElem?.mp member with ⟨place, found⟩
  have isPair : (wanted, start + place) ∈ text.zipIdx start := by
    apply List.mk_mem_zipIdx_iff_le_and_getElem?_sub.mpr
    simpa using found
  exact List.filter_eq_nil_iff.mp none _ isPair (decide_eq_true rfl)

theorem not_mem_of_occurrences (none : occurrences wanted text = []) : wanted ∉ text :=
  not_mem_of_filter_zipIdx (List.map_eq_nil_iff.mp none)

theorem exists_of_occurrences {place : Nat} (single : occurrences wanted text = [place]) :
    ∃ before behind, text = before ++ wanted :: behind ∧ before.length = place ∧
      wanted ∉ before ∧ wanted ∉ behind := by
  by_cases member : wanted ∈ text
  · rcases List.eq_append_cons_of_mem member with ⟨before, behind, rfl, absent⟩
    rw [occurrences_append absent, List.cons.injEq, List.map_eq_nil_iff] at single
    exact ⟨before, behind, rfl, single.1, absent, not_mem_of_filter_zipIdx single.2⟩
  · rw [occurrences_of_not_mem member] at single
    contradiction

theorem lt_length_of_mem_occurrences {place : Nat}
    (member : place ∈ occurrences wanted text) :
    place < text.length := by
  rcases List.mem_map.mp member with ⟨⟨character, _⟩, isPair, rfl⟩
  have found := List.mem_zipIdx (List.mem_of_mem_filter isPair)
  dsimp only at found ⊢
  omega

/-- The outline cuts the pattern of a rule into these sections, of which none holds a
sign. -/
structure Cuts (outline : ContextOutline) (fragment : Fragment) : Prop where
  text_eq : fragment.text = beforeMark '<' outline.left ++
    (outline.target.text ++ behindMark '>' outline.right)
  left : ∀ part ∈ outline.left, part.offset = fragment.offset
  target : outline.target.offset = fragment.offset + (beforeMark '<' outline.left).length
  right : ∀ part ∈ outline.right, part.offset =
    outline.target.offset + outline.target.text.length + 1
  signless : ∀ part ∈ outline.target :: (outline.left.toList ++ outline.right.toList),
    '<' ∉ part.text ∧ '>' ∉ part.text

theorem between_zero_left (offset : Nat) (before behind : List Char) :
    between ⟨offset, before ++ behind⟩ 0 before.length = ⟨offset, before⟩ := by
  simp [between]

theorem between_behind (offset : Nat) (before : List Char) (mark : Char)
    (behind : List Char) :
    between ⟨offset, before ++ mark :: behind⟩ (before.length + 1)
      (before ++ mark :: behind).length = ⟨offset + before.length + 1, behind⟩ := by
  rw [between]
  simp only [List.take_length, drop_behind, Nat.add_assoc]

theorem exists_middle {first second : Char} {before behind front back : List Char}
    (same : before ++ first :: behind = front ++ second :: back)
    (ordered : before.length < front.length) :
    ∃ middle, front = before ++ first :: middle ∧ behind = middle ++ second :: back := by
  rcases List.append_eq_append_iff.mp same with ⟨middle, isFront, rest⟩ | ⟨_, isBefore, _⟩
  · cases middle with
    | nil =>
        rw [isFront, List.append_nil] at ordered
        exact absurd ordered (Nat.lt_irrefl _)
    | cons head middle =>
        cases rest
        exact ⟨middle, isFront, rfl⟩
  · rw [isBefore, List.length_append] at ordered
    omega

theorem cuts_of_ofFragment {fragment : Fragment} {outline : ContextOutline}
    (isOutline : ofFragment fragment = .ok outline) : outline.Cuts fragment := by
  rcases fragment with ⟨offset, text⟩
  unfold ofFragment at isOutline
  dsimp only at isOutline
  split at isOutline
  · contradiction
  · contradiction
  · next noLeft noRight =>
      cases isOutline
      refine ⟨(List.append_nil _).symm, nofun, rfl, nofun, ?_⟩
      simpa using ⟨not_mem_of_occurrences noLeft, not_mem_of_occurrences noRight⟩
  · next isLeft noRight =>
      cases isOutline
      rcases exists_of_occurrences isLeft with
        ⟨before, behind, rfl, rfl, absent, absentBehind⟩
      have noRight := not_mem_of_occurrences noRight
      rw [between_zero_left, between_behind]
      refine ⟨by simp [beforeMark, behindMark], ?_, ?_, nofun, ?_⟩
      · rintro _ ⟨⟩
        rfl
      · simp [beforeMark, Nat.add_assoc]
      · simp_all
  · next noLeft isRight =>
      cases isOutline
      rcases exists_of_occurrences isRight with
        ⟨before, behind, rfl, rfl, absent, absentBehind⟩
      have noLeft := not_mem_of_occurrences noLeft
      rw [between_zero_left, between_behind]
      refine ⟨rfl, nofun, rfl, ?_, ?_⟩
      · rintro _ ⟨⟩
        rfl
      · simp_all
  · next isLeft isRight =>
      split at isOutline
      · contradiction
      · next ordered =>
          cases isOutline
          rcases exists_of_occurrences isLeft with
            ⟨before, behind, isText, rfl, noLeft, noLeftBehind⟩
          rcases exists_of_occurrences isRight with
            ⟨front, back, alsoText, rfl, noRight, noRightBehind⟩
          have same := isText.symm.trans alsoText
          -- One place cannot hold both marks, so `<` is strictly in front of `>`.
          have apart : before.length ≠ front.length := by
            intro equal
            exact nomatch List.append_inj_right same equal
          rcases exists_middle same (by omega) with ⟨middle, rfl, rfl⟩
          subst isText
          have left := between_zero_left offset before ('<' :: (middle ++ '>' :: back))
          have target : between ⟨offset, before ++ '<' :: (middle ++ '>' :: back)⟩
              (before.length + 1) (before ++ '<' :: middle).length =
                ⟨offset + before.length + 1, middle⟩ := by
            rw [between, same]
            simp only [List.take_left, drop_behind, Nat.add_assoc]
          have right := between_behind offset (before ++ '<' :: middle) '>' back
          rw [← same] at right
          rw [left, target, right]
          refine ⟨by simp [beforeMark, behindMark], ?_, ?_, ?_, ?_⟩
          · rintro _ ⟨⟩
            rfl
          · simp [beforeMark, Nat.add_assoc]
          · rintro _ ⟨⟩
            simp only [List.length_append, List.length_cons]
            omega
          · simp only [List.mem_append, List.mem_cons, not_or] at noLeftBehind noRight
            simp [noLeft, noLeftBehind, noRight, noRightBehind]

variable {outline : ContextOutline} {fragment : Fragment}

theorem Cuts.left_partOf (cuts : outline.Cuts fragment) :
    ∀ part ∈ outline.left, part.PartOf fragment := by
  intro part isLeft
  have whole := cuts.text_eq
  rw [isLeft, beforeMark, List.append_assoc] at whole
  exact ⟨[], _, whole, cuts.left part isLeft⟩

theorem Cuts.target_partOf (cuts : outline.Cuts fragment) :
    outline.target.PartOf fragment :=
  ⟨_, _, cuts.text_eq, cuts.target⟩

theorem Cuts.right_partOf (cuts : outline.Cuts fragment) :
    ∀ part ∈ outline.right, part.PartOf fragment := by
  intro part isRight
  have whole := cuts.text_eq
  rw [isRight] at whole
  refine ⟨beforeMark '<' outline.left ++ (outline.target.text ++ ['>']), [], ?_, ?_⟩
  · simpa [behindMark] using whole
  · rw [cuts.right part isRight, cuts.target]
    simp [Nat.add_assoc]

end ContextOutline

end LSystems
