import LSystems.Production.Outline
import LSystems.Proofs.Terms

/-!
# Outlines of written rules

A text in which the parts of a rule stand between their marks is cut into these parts
again, with blanks around them, if no part holds a mark that would be met first. Main
statements: `Outline.exists_ofText?`, `ContextOutline.exists_ofFragment`.
-/

namespace LSystems

def Around (part text : List Char) : Prop :=
  ∃ front back, front.all Text.isBlank = true ∧ back.all Text.isBlank = true ∧
    part = front ++ (text ++ back)

/-! ## Marks -/

/-- The text holds none of the marks between the parts of a rule, up to its arrow. -/
def Unmarked (text : List Char) : Prop :=
  ∀ character ∈ text, character ∉ ['<', '>', ':', '|']

variable {text front back before behind : List Char}

theorem Unmarked.append (unmarked : Unmarked front) (further : Unmarked back) :
    Unmarked (front ++ back) := by
  intro character member
  rcases List.mem_append.mp member with member | member
  · exact unmarked character member
  · exact further character member

theorem Unmarked.not_mem {mark : Char} (unmarked : Unmarked text)
    (isMark : mark ∈ ['<', '>', ':', '|']) : mark ∉ text :=
  fun member => unmarked mark member isMark

theorem unmarked_of_plain (plain : ∀ character ∈ text, character ∉ reservedCharacters) :
    Unmarked text :=
  fun character member isMark =>
    plain character member (List.mem_append_right ['(', ')', ','] isMark)

theorem unmarked_of_blank (blank : text.all Text.isBlank = true) : Unmarked text := by
  have none : ['<', '>', ':', '|'].all (!Text.isBlank ·) = true := by decide
  intro character member isMark
  have isBlank := List.all_eq_true.mp blank character member
  simpa [isBlank] using List.all_eq_true.mp none character isMark

section Terms

variable {α : Type} {render : α → List Char} {term : Term α} {terms : List (Term α)}

theorem unmarked_text (usable : isLetterSymbol term.letter = true)
    (unmarked : ∀ value ∈ term.arguments, Unmarked (render value)) :
    Unmarked (term.text render) := by
  have letter : Unmarked [term.letter] := by
    apply unmarked_of_plain
    intro character member
    cases List.mem_singleton.mp member
    exact letterFault?_eq_none_iff.mp (isLetterSymbol_iff.mp usable).2
  have list :
      Unmarked ('(' ::
        ([',', ' '].intercalate (term.arguments.map render) ++ [')'])) := by
    have opening : Unmarked ['('] := by simp [Unmarked]
    have closing : Unmarked [')'] := by simp [Unmarked]
    have inside : Unmarked ([',', ' '].intercalate (term.arguments.map render)) :=
      intercalate_induction nofun (fun _ _ => Unmarked.append) (by simp [Unmarked])
        (List.forall_mem_map.mpr unmarked)
    exact opening.append (inside.append closing)
  rw [Term.text]
  split
  · exact letter
  · exact letter.append list

theorem unmarked_rowText (usable : ∀ term ∈ terms, isLetterSymbol term.letter = true)
    (unmarked : ∀ term ∈ terms, ∀ value ∈ term.arguments, Unmarked (render value)) :
    Unmarked (rowText render terms) := by
  intro character member
  rcases List.mem_flatMap.mp member with ⟨term, isTerm, member⟩
  exact unmarked_text (usable term isTerm) (unmarked term isTerm) character member

end Terms

/-! ## Arrows -/

/-- Every `>` of the text stands behind a character with which it makes no arrow. -/
inductive Arrowless : List Char → Prop
  | nil : Arrowless []
  | free {character text} :
      character ≠ '>' → Arrowless text → Arrowless (character :: text)
  | mark {character text} : character ∉ ['-', '>'] → Arrowless text →
      Arrowless (character :: '>' :: text)

theorem Arrowless.of_free (free : ∀ character ∈ text, character ≠ '>') :
    Arrowless text := by
  induction text with
  | nil => exact .nil
  | cons head tail induction =>
      rcases List.forall_mem_cons.mp free with ⟨isFree, free⟩
      exact .free isFree (induction free)

theorem Unmarked.arrowless (unmarked : Unmarked text) : Arrowless text := by
  apply Arrowless.of_free
  rintro character member rfl
  exact unmarked.not_mem (by decide) member

theorem Arrowless.append (arrowless : Arrowless front) (further : Arrowless back) :
    Arrowless (front ++ back) := by
  induction arrowless with
  | nil => exact further
  | free isFree _ induction => exact .free isFree induction
  | mark isMark _ induction => exact .mark isMark induction

theorem Arrowless.head?_ne (arrowless : Arrowless before) (behind : List Char) :
    (before ++ '-' :: behind).head? ≠ some '>' := by
  cases arrowless with
  | nil => simp
  | free isFree _ => simpa using isFree
  | mark isMark _ =>
      simp only [List.mem_cons, List.not_mem_nil, or_false, not_or] at isMark
      simpa using isMark.2

namespace Outline

theorem splitArrow?_cons {character : Char} {rest : List Char}
    (apart : character ≠ '-' ∨ rest.head? ≠ some '>') :
    splitArrow? (character :: rest) =
      (splitArrow? rest).map fun (before, behind) => (character :: before, behind) := by
  rw [splitArrow?]
  rintro further rfl rfl
  rcases apart with apart | apart <;> contradiction

theorem splitArrow?_of_arrowless (arrowless : Arrowless before) (behind : List Char) :
    splitArrow? (before ++ '-' :: '>' :: behind) = some (before, behind) := by
  induction arrowless with
  | nil => rfl
  | free _ arrowless induction =>
      rw [List.cons_append, splitArrow?_cons (.inr (arrowless.head?_ne _)), induction]
      rfl
  | mark isMark _ induction =>
      simp only [List.mem_cons, List.not_mem_nil, or_false, not_or] at isMark
      rw [List.cons_append, List.cons_append, splitArrow?_cons (.inl isMark.1),
        splitArrow?_cons (.inl (by decide)), induction]
      rfl

/-! ## Probabilities -/

/-- The text goes on with something that is no list of arguments and no bar. -/
def Resumes (text : List Char) : Prop :=
  ∀ character ∈ (Text.dropBlanks text).head?, character ∉ ['(', '|']

theorem splitProbability?_probabilityPart {inside : List Char} (nested : Nested inside)
    (rest : List Char) :
    ∃ span offset,
      splitProbability? ('P' :: '(' :: (inside ++ ')' :: ' ' :: '|' :: rest)) =
      some (inside, span, ⟨offset, rest⟩) := by
  have named : Text.dropBlanks ('P' :: '(' :: (inside ++ ')' :: ' ' :: '|' :: rest)) =
      'P' :: '(' :: (inside ++ ')' :: ' ' :: '|' :: rest) := rfl
  have opened : Text.dropBlanks ('(' :: (inside ++ ')' :: ' ' :: '|' :: rest)) =
      '(' :: (inside ++ ')' :: ' ' :: '|' :: rest) := rfl
  have barred : Text.dropBlanks (' ' :: '|' :: rest) = '|' :: rest := rfl
  simp only [splitProbability?, named, opened, nested.splitClosing?, barred]
  exact ⟨_, _, rfl⟩

section Terms

variable {α : Type} {render : α → List Char} {term : Term α} {terms : List (Term α)}

theorem resumes_rowText (legible : ∀ term ∈ terms, term.Legible render)
    (resumes : Resumes behind) :
    Resumes (rowText render terms ++ behind) := by
  cases terms with
  | nil => exact resumes
  | cons term rest =>
      have usable := (List.forall_mem_cons.mp legible).1.letter
      have starts : StartsWithLetter (rowText render (term :: rest) ++ behind) := by
        rintro _ ⟨⟩
        exact usable
      rw [Resumes, dropBlanks_of_startsWithLetter starts]
      rintro _ ⟨⟩ isMark
      simp only [List.mem_cons, List.not_mem_nil, or_false] at isMark
      rcases isMark with isMark | isMark <;>
        · rw [isMark] at usable
          contradiction

/-- A row of terms that no bar follows has no probability in front, whatever its first
letter is. -/
theorem splitProbability?_rowText (isLegible : term.Legible render)
    (legible : ∀ term ∈ terms, term.Legible render) (resumes : Resumes behind) :
    splitProbability? (rowText render (term :: terms) ++ behind) = none := by
  have further := resumes_rowText legible resumes
  have starts : StartsWithLetter (rowText render (term :: terms) ++ behind) := by
    rintro _ ⟨⟩
    exact isLegible.letter
  rw [splitProbability?, dropBlanks_of_startsWithLetter starts]
  rw [rowText, List.flatMap_cons, List.append_assoc, Term.text, ← rowText]
  cases areArguments : term.arguments with
  | nil =>
      simp only [List.isEmpty_nil, if_true, List.cons_append, List.nil_append]
      split
      · next named isText =>
          cases (List.cons.inj isText).2
          split
          · next opened isOpened =>
              rw [Resumes, isOpened] at further
              exact absurd (by simp) (further '(' rfl)
          · rfl
      · rfl
  | cons value values =>
      have nested := nested_intercalate isLegible.forall_map
      rw [areArguments] at nested
      simp only [List.isEmpty_cons, Bool.false_eq_true, if_false, List.cons_append,
        List.append_assoc, List.nil_append]
      split
      · next named isText =>
          cases (List.cons.inj isText).2
          have opened (row : List Char) : Text.dropBlanks ('(' :: row) = '(' :: row := rfl
          simp only [opened, nested.splitClosing?]
          split
          · next rest isRest =>
              rw [Resumes, isRest] at further
              exact absurd (by simp) (further '|' rfl)
          · rfl
      · rfl

end Terms

/-! ## Whole rules -/

theorem splitMark_of_not_mem {mark : Char} (absent : mark ∉ text) (offset : Nat) :
    splitMark mark ⟨offset, text⟩ = (⟨offset, text⟩, none) := by
  have none : text.dropWhile (· ≠ mark) = [] := by
    apply List.dropWhile_eq_nil_iff.mpr
    intro character member
    exact decide_eq_true fun same => absent (same ▸ member)
  rw [splitMark]
  simp only [none]

theorem splitMark_of_not_mem_before {mark : Char} (absent : mark ∉ before) (offset : Nat)
    (behind : List Char) :
    splitMark mark ⟨offset, before ++ mark :: behind⟩ =
      (⟨offset, before⟩, some ⟨offset + before.length + 1, behind⟩) := by
  have apart : ∀ character ∈ before, decide (character ≠ mark) = true :=
    fun character member => decide_eq_true fun same => absent (same ▸ member)
  have first : (before ++ mark :: behind).takeWhile (· ≠ mark) = before := by
    rw [List.takeWhile_append_of_pos apart, List.takeWhile_cons_of_neg (by simp),
      List.append_nil]
  have rest : (before ++ mark :: behind).dropWhile (· ≠ mark) = mark :: behind := by
    rw [List.dropWhile_append_of_pos apart, List.dropWhile_cons_of_neg (by simp)]
  rw [splitMark]
  simp only [first, rest]

def probabilityPart : Option (List Char) → List Char
  | some inside => 'P' :: '(' :: (inside ++ [')', ' ', '|', ' '])
  | none => []

def conditionPart : Option (List Char) → List Char
  | some condition => ':' :: ' ' :: (condition ++ [' '])
  | none => []

variable {context replacement : List Char} {probability condition : Option (List Char)}

theorem arrowless_probabilityPart (arrowless : ∀ inside ∈ probability, Arrowless inside) :
    Arrowless (probabilityPart probability) := by
  cases probability with
  | none => exact .nil
  | some inside =>
      have closing : Arrowless [')', ' ', '|', ' '] := .of_free (by simp)
      exact .free (by decide) (.free (by decide) ((arrowless inside rfl).append closing))

theorem arrowless_conditionPart (arrowless : ∀ text ∈ condition, Arrowless text) :
    Arrowless (conditionPart condition) := by
  cases condition with
  | none => exact .nil
  | some text =>
      have blank : Arrowless [' '] := .of_free (by simp)
      exact .free (by decide) (.free (by decide) ((arrowless text rfl).append blank))

theorem exists_splitMark (absent : ':' ∉ context) (condition : Option (List Char))
    (offset : Nat) :
    ∃ found, splitMark ':' ⟨offset, context ++ conditionPart condition⟩ =
        (⟨offset, context⟩, found) ∧
      Option.Rel (fun fragment text => Around fragment.text text) found condition := by
  cases condition with
  | none =>
      rw [conditionPart, List.append_nil]
      exact ⟨none, splitMark_of_not_mem absent offset, .none⟩
  | some text =>
      exact ⟨_, splitMark_of_not_mem_before absent offset _,
        .some ⟨[' '], [' '], rfl, rfl, rfl⟩⟩

structure Shows (outline : Outline) (probability : Option (List Char))
    (context : List Char) (condition : Option (List Char)) (replacement : List Char) :
    Prop where
  probability : outline.probability.map Prod.fst = probability
  context : Around outline.context.text context
  condition : Option.Rel (fun fragment text => Around fragment.text text)
    outline.condition condition
  replacement : Around outline.replacement.text replacement

theorem ofText?_of_plain {found : Option Fragment} {pattern : Fragment}
    (isArrow : splitArrow? text = some (before, behind))
    (isPlain : splitProbability? before = none)
    (isSplit : splitMark ':' ⟨0, before⟩ = (pattern, found)) :
    ofText? text = some ⟨none, pattern, found, ⟨before.length + 2, behind⟩⟩ := by
  simp only [ofText?, isArrow, Option.bind_eq_bind, Option.bind_some, isPlain, isSplit]
  rfl

theorem ofText?_of_probability {found : Option Fragment} {pattern rest : Fragment}
    {inside : List Char} {span : Span}
    (isArrow : splitArrow? text = some (before, behind))
    (isProbability : splitProbability? before = some (inside, span, rest))
    (isSplit : splitMark ':' rest = (pattern, found)) :
    ofText? text = some ⟨some (inside, span), pattern, found,
      ⟨before.length + 2, behind⟩⟩ := by
  simp only [ofText?, isArrow, Option.bind_eq_bind, Option.bind_some,
    isProbability, isSplit]
  rfl

theorem exists_ofText? (nested : ∀ inside ∈ probability, Nested inside)
    (arrowlessProbability : ∀ inside ∈ probability, Arrowless inside)
    (arrowlessContext : Arrowless context)
    (arrowlessCondition : ∀ text ∈ condition, Arrowless text) (absent : ':' ∉ context)
    (plain : probability = none →
      splitProbability? (context ++ ' ' :: conditionPart condition) = none) :
    ∃ outline, ofText?
      (probabilityPart probability ++ (context ++ ' ' :: conditionPart condition) ++
        '-' :: '>' :: ' ' :: replacement) = some outline ∧
      outline.Shows probability context condition replacement := by
  have arrowless : Arrowless
      (probabilityPart probability ++ (context ++ ' ' :: conditionPart condition)) :=
    (arrowless_probabilityPart arrowlessProbability).append
      (arrowlessContext.append (.free (by decide)
        (arrowless_conditionPart arrowlessCondition)))
  have isReplacement : Around (' ' :: replacement) replacement :=
    ⟨[' '], [], rfl, rfl, by simp⟩
  have isArrow := splitArrow?_of_arrowless arrowless (' ' :: replacement)
  cases probability with
  | none =>
      have absentHere : ':' ∉ context ++ [' '] := by simpa using absent
      rcases exists_splitMark absentHere condition 0 with ⟨found, isSplit, isCondition⟩
      rw [List.append_assoc, List.singleton_append] at isSplit
      exact ⟨_, ofText?_of_plain isArrow (plain rfl) isSplit, rfl,
        ⟨[], [' '], rfl, rfl, rfl⟩, isCondition, isReplacement⟩
  | some inside =>
      rcases splitProbability?_probabilityPart (nested inside rfl)
        (' ' :: (context ++ ' ' :: conditionPart condition)) with
          ⟨span, offset, isProbability⟩
      have absentHere : ':' ∉ ' ' :: (context ++ [' ']) := by simpa using absent
      rcases exists_splitMark absentHere condition offset with
        ⟨found, isSplit, isCondition⟩
      rw [List.cons_append, List.append_assoc, List.singleton_append] at isSplit
      have whole :
          probabilityPart (some inside) ++ (context ++ ' ' :: conditionPart condition) =
          'P' :: '(' :: (inside ++ ')' :: ' ' :: '|' :: ' ' ::
            (context ++ ' ' :: conditionPart condition)) := by simp [probabilityPart]
      rw [← whole] at isProbability
      exact ⟨_, ofText?_of_probability isArrow isProbability isSplit, rfl,
        ⟨[' '], [' '], rfl, rfl, rfl⟩, isCondition, isReplacement⟩

end Outline

namespace ContextOutline

/-! ## Contexts -/

theorem filter_zipIdx_of_not_mem {wanted : Char} (absent : wanted ∉ text) (start : Nat) :
    ((text.zipIdx start).filter fun (character, _) => character = wanted) = [] := by
  apply List.filter_eq_nil_iff.mpr
  rintro ⟨character, place⟩ member same
  have isWanted : character = wanted := of_decide_eq_true same
  exact absent (isWanted ▸ List.fst_mem_of_mem_zipIdx member)

theorem occurrences_of_not_mem {wanted : Char} (absent : wanted ∉ text) :
    occurrences wanted text = [] := by
  rw [occurrences, filter_zipIdx_of_not_mem absent]
  rfl

theorem occurrences_append {wanted : Char} (absent : wanted ∉ before)
    (behind : List Char) :
    occurrences wanted (before ++ wanted :: behind) =
      before.length :: ((behind.zipIdx (before.length + 1)).filter
        fun (character, _) => character = wanted).map Prod.snd := by
  rw [occurrences, List.zipIdx_append, List.zipIdx_cons, List.filter_append,
    filter_zipIdx_of_not_mem absent, List.nil_append, List.filter_cons_of_pos (by simp)]
  simp

theorem occurrences_append_cons {wanted : Char} (absentBefore : wanted ∉ before)
    (absentBehind : wanted ∉ behind) :
    occurrences wanted (before ++ wanted :: behind) = [before.length] := by
  rw [occurrences_append absentBefore, filter_zipIdx_of_not_mem absentBehind]
  rfl

theorem drop_behind (before behind : List Char) (mark : Char) :
    (before ++ mark :: behind).drop (before.length + 1) = behind := by
  rw [List.drop_length_add_append]
  rfl

section Signs

variable {middle : List Char} (offset : Nat)

theorem ofFragment_unmarked (unmarked : Unmarked text) :
    ofFragment ⟨offset, text⟩ = .ok ⟨none, ⟨offset, text⟩, none⟩ := by
  rw [ofFragment]
  simp only [occurrences_of_not_mem (unmarked.not_mem (by decide : '<' ∈ _)),
    occurrences_of_not_mem (unmarked.not_mem (by decide : '>' ∈ _))]

theorem ofFragment_left (unmarkedBefore : Unmarked before)
    (unmarkedBehind : Unmarked behind) :
    ofFragment ⟨offset, before ++ '<' :: behind⟩ =
      .ok ⟨some ⟨offset, before⟩, ⟨offset + (before.length + 1), behind⟩, none⟩ := by
  have lefts := occurrences_append_cons (unmarkedBefore.not_mem (by decide : '<' ∈ _))
    (unmarkedBehind.not_mem (by decide))
  have rights : occurrences '>' (before ++ '<' :: behind) = [] := by
    apply occurrences_of_not_mem
    simp [unmarkedBefore.not_mem (by decide : '>' ∈ _),
      unmarkedBehind.not_mem (by decide : '>' ∈ _)]
  rw [ofFragment]
  simp only [lefts, rights, between, List.take_length, drop_behind, List.take_left,
    List.drop_zero, Nat.add_zero]

theorem ofFragment_right (unmarkedBefore : Unmarked before)
    (unmarkedBehind : Unmarked behind) :
    ofFragment ⟨offset, before ++ '>' :: behind⟩ =
      .ok ⟨none, ⟨offset, before⟩, some ⟨offset + (before.length + 1), behind⟩⟩ := by
  have rights := occurrences_append_cons (unmarkedBefore.not_mem (by decide : '>' ∈ _))
    (unmarkedBehind.not_mem (by decide))
  have lefts : occurrences '<' (before ++ '>' :: behind) = [] := by
    apply occurrences_of_not_mem
    simp [unmarkedBefore.not_mem (by decide : '<' ∈ _),
      unmarkedBehind.not_mem (by decide : '<' ∈ _)]
  rw [ofFragment]
  simp only [lefts, rights, between, List.take_length, drop_behind, List.take_left,
    List.drop_zero, Nat.add_zero]

theorem ofFragment_both (unmarkedBefore : Unmarked before)
    (unmarkedMiddle : Unmarked middle) (unmarkedBehind : Unmarked behind) :
    ofFragment ⟨offset, before ++ '<' :: (middle ++ '>' :: behind)⟩ =
      .ok ⟨some ⟨offset, before⟩, ⟨offset + (before.length + 1), middle⟩,
        some ⟨offset + ((before ++ '<' :: middle).length + 1), behind⟩⟩ := by
  have joined : before ++ '<' :: (middle ++ '>' :: behind) =
      (before ++ '<' :: middle) ++ '>' :: behind := by simp
  have lefts :
      occurrences '<' (before ++ '<' :: (middle ++ '>' :: behind)) = [before.length] := by
    apply occurrences_append_cons (unmarkedBefore.not_mem (by decide))
    simp [unmarkedMiddle.not_mem (by decide : '<' ∈ _),
      unmarkedBehind.not_mem (by decide : '<' ∈ _)]
  have rights : occurrences '>' (before ++ '<' :: (middle ++ '>' :: behind)) =
      [(before ++ '<' :: middle).length] := by
    rw [joined]
    apply occurrences_append_cons _ (unmarkedBehind.not_mem (by decide))
    simp [unmarkedBefore.not_mem (by decide : '>' ∈ _),
      unmarkedMiddle.not_mem (by decide : '>' ∈ _)]
  have ordered : ¬ (before ++ '<' :: middle).length < before.length := by simp
  rw [ofFragment]
  simp only [lefts, rights, if_neg ordered]
  simp only [between, List.take_length, List.take_left, List.drop_zero, Nat.add_zero]
  rw [joined, List.take_left, drop_behind, drop_behind]

end Signs

def leftPart : Option (List Char) → List Char
  | some left => left ++ [' ', '<', ' ']
  | none => []

def rightPart : Option (List Char) → List Char
  | some right => ' ' :: '>' :: ' ' :: right
  | none => []

structure Shows (outline : ContextOutline) (left : Option (List Char))
    (target : List Char) (right : Option (List Char)) : Prop where
  left : Option.Rel (fun fragment text => Around fragment.text text) outline.left left
  target : Around outline.target.text target
  right : Option.Rel (fun fragment text => Around fragment.text text) outline.right right

variable {left right : Option (List Char)} {target : List Char}

theorem arrowless_parts (unmarkedLeft : ∀ text ∈ left, Unmarked text)
    (unmarkedTarget : Unmarked target) (unmarkedRight : ∀ text ∈ right, Unmarked text) :
    Arrowless (leftPart left ++ (target ++ rightPart right)) := by
  have arrowlessLeft : Arrowless (leftPart left) := by
    cases left with
    | none => exact .nil
    | some left => exact (unmarkedLeft left rfl).arrowless.append (.of_free (by simp))
  have arrowlessRight : Arrowless (rightPart right) := by
    cases right with
    | none => exact .nil
    | some right =>
        exact .mark (by decide) (.free (by decide) (unmarkedRight right rfl).arrowless)
  exact arrowlessLeft.append (unmarkedTarget.arrowless.append arrowlessRight)

theorem colon_not_mem_parts (unmarkedLeft : ∀ text ∈ left, Unmarked text)
    (unmarkedTarget : Unmarked target) (unmarkedRight : ∀ text ∈ right, Unmarked text) :
    ':' ∉ leftPart left ++ (target ++ rightPart right) := by
  have absentLeft : ':' ∉ leftPart left := by
    cases left with
    | none => exact List.not_mem_nil
    | some left =>
        simpa [leftPart] using (unmarkedLeft left rfl).not_mem (by decide : ':' ∈ _)
  have absentRight : ':' ∉ rightPart right := by
    cases right with
    | none => exact List.not_mem_nil
    | some right =>
        simpa [rightPart] using (unmarkedRight right rfl).not_mem (by decide : ':' ∈ _)
  have absentTarget := unmarkedTarget.not_mem (by decide : ':' ∈ _)
  simp [absentLeft, absentTarget, absentRight]

theorem exists_ofFragment {fragment : Fragment}
    (unmarkedLeft : ∀ text ∈ left, Unmarked text) (unmarkedTarget : Unmarked target)
    (unmarkedRight : ∀ text ∈ right, Unmarked text)
    (around : Around fragment.text (leftPart left ++ (target ++ rightPart right))) :
    ∃ outline, ofFragment fragment = .ok outline ∧ outline.Shows left target right := by
  rcases fragment with ⟨offset, text⟩
  rcases around with ⟨front, back, blankFront, blankBack, rfl⟩
  have unmarkedFront := unmarked_of_blank blankFront
  have unmarkedBack := unmarked_of_blank blankBack
  have unmarkedBlank : Unmarked [' '] := unmarked_of_blank (by decide)
  cases left with
  | none =>
      cases right with
      | none =>
          have unmarked := unmarkedFront.append (unmarkedTarget.append unmarkedBack)
          have whole : front ++ (leftPart none ++ (target ++ rightPart none) ++ back) =
              front ++ (target ++ back) := by simp [leftPart, rightPart]
          rw [whole]
          exact ⟨_, ofFragment_unmarked offset unmarked, .none,
            ⟨front, back, blankFront, blankBack, rfl⟩, .none⟩
      | some right =>
          have unmarked := unmarkedFront.append (unmarkedTarget.append unmarkedBlank)
          have further :=
            unmarkedBlank.append ((unmarkedRight right rfl).append unmarkedBack)
          have whole :
              front ++ (leftPart none ++ (target ++ rightPart (some right)) ++ back) =
              front ++ (target ++ [' ']) ++ '>' :: ([' '] ++ (right ++ back)) := by
            simp [leftPart, rightPart]
          rw [whole]
          exact ⟨_, ofFragment_right offset unmarked further, .none,
            ⟨front, [' '], blankFront, rfl, rfl⟩,
            .some ⟨[' '], back, rfl, blankBack, rfl⟩⟩
  | some left =>
      have unmarked := unmarkedFront.append ((unmarkedLeft left rfl).append unmarkedBlank)
      cases right with
      | none =>
          have further := unmarkedBlank.append (unmarkedTarget.append unmarkedBack)
          have whole :
              front ++ (leftPart (some left) ++ (target ++ rightPart none) ++ back) =
              front ++ (left ++ [' ']) ++ '<' :: ([' '] ++ (target ++ back)) := by
            simp [leftPart, rightPart]
          rw [whole]
          exact ⟨_, ofFragment_left offset unmarked further,
            .some ⟨front, [' '], blankFront, rfl, rfl⟩,
            ⟨[' '], back, rfl, blankBack, rfl⟩, .none⟩
      | some right =>
          have middle := unmarkedBlank.append (unmarkedTarget.append unmarkedBlank)
          have further :=
            unmarkedBlank.append ((unmarkedRight right rfl).append unmarkedBack)
          have whole :
              front ++
                (leftPart (some left) ++ (target ++ rightPart (some right)) ++ back) =
                front ++ (left ++ [' ']) ++
                  '<' ::
                    ([' '] ++ (target ++ [' ']) ++ '>' ::
                      ([' '] ++ (right ++ back))) := by
            simp [leftPart, rightPart]
          rw [whole]
          exact ⟨_, ofFragment_both offset unmarked middle further,
            .some ⟨front, [' '], blankFront, rfl, rfl⟩, ⟨[' '], [' '], rfl, rfl, rfl⟩,
            .some ⟨[' '], back, rfl, blankBack, rfl⟩⟩

end ContextOutline

end LSystems
