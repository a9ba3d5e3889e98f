import LSystems.Proofs.Production.Sections

/-!
# Letters that are met

Every letter that a reader meets stands in the text that it reads and may name a symbol,
also if the reading ends in an error. Main statements: `Production.drawnFrom_read`,
`Production.drawnFrom_readAll`.
-/

namespace LSystems

namespace Reading

variable {α β : Type} {reading first : Reading α} {next : α → Reading β}
    {text whole : List Char}

def DrawnFrom (text : List Char) (reading : Reading α) : Prop :=
  ∀ letter ∈ reading.letters, letter ∈ text ∧ isLetterSymbol letter = true

theorem drawnFrom_lift (outcome : Except Error α) : (lift outcome).DrawnFrom text := nofun

theorem drawnFrom_pure (result : α) : (pure result : Reading α).DrawnFrom text := nofun

theorem drawnFrom_meet {letter : Char} (member : letter ∈ text)
    (usable : isLetterSymbol letter = true) : (meet letter).DrawnFrom text := by
  intro other isMet
  cases List.mem_singleton.mp isMet
  exact ⟨member, usable⟩

theorem DrawnFrom.bind (drawn : first.DrawnFrom text)
    (further : ∀ result, first.outcome = .ok result → (next result).DrawnFrom text) :
    (first >>= next).DrawnFrom text := by
  change (Reading.bind first next).DrawnFrom text
  rw [Reading.bind]
  cases isOutcome : first.outcome with
  | error => exact drawn
  | ok result =>
      intro letter member
      rcases List.mem_append.mp member with member | member
      · exact drawn letter member
      · exact further result isOutcome letter member

theorem DrawnFrom.mono (drawn : reading.DrawnFrom text)
    (inside : ∀ character ∈ text, character ∈ whole) : reading.DrawnFrom whole :=
  fun letter member => (drawn letter member).imp_left (inside letter)

theorem DrawnFrom.clean (drawn : reading.DrawnFrom text) : reading.Clean :=
  fun letter member => (drawn letter member).2

end Reading

open Reading

theorem Fragment.PartOf.mem {part whole : Fragment} (inside : part.PartOf whole)
    {character : Char} (member : character ∈ part.text) : character ∈ whole.text := by
  rcases inside with ⟨front, back, isWhole, _⟩
  rw [isWhole]
  exact List.mem_append_right _ (List.mem_append_left _ member)

theorem drawnFrom_readLetters (offset : Nat) (text : List Char) :
    (readLetters offset text).DrawnFrom text := by
  induction text generalizing offset with
  | nil => exact drawnFrom_pure _
  | cons character rest induction =>
      have further := (induction (offset + 1)).mono fun _ =>
        List.mem_cons_of_mem character
      rw [readLetters]
      split
      · exact further
      · next notBlank =>
          split
          · exact drawnFrom_lift _
          · next unreserved =>
              have usable : isLetterSymbol character = true := by
                simpa [isLetterSymbol, notBlank] using unreserved
              apply (drawnFrom_meet List.mem_cons_self usable).bind
              intro _ _
              apply further.bind
              exact fun _ _ => drawnFrom_pure _

/-! ## Pieces -/

section Pieces

variable {fragment whole : Fragment}

theorem drawnFrom_readPieces {α : Type} {meaning : Piece → Except Error α}
    {pieces : List Piece} {failure : Option Error} {text : List Char}
    (each : ∀ piece ∈ pieces, piece.letter ∈ text ∧ isLetterSymbol piece.letter = true) :
    (readPieces meaning (pieces, failure)).DrawnFrom text := by
  induction pieces with
  | nil =>
      cases failure with
      | none =>
          rw [readPieces]
          exact drawnFrom_pure _
      | some error =>
          rw [readPieces]
          exact drawnFrom_lift _
  | cons piece rest induction =>
      rw [readPieces]
      rcases List.forall_mem_cons.mp each with ⟨⟨member, usable⟩, each⟩
      apply (drawnFrom_lift _).bind
      intro first _
      apply (drawnFrom_meet member usable).bind
      intro _ _
      apply (induction each).bind
      exact fun _ _ => drawnFrom_pure _

theorem drawnFrom_cut {α : Type} (meaning : Piece → Except Error α)
    (inside : fragment.PartOf whole) :
    (readPieces meaning (cut fragment.offset fragment.text)).DrawnFrom whole.text := by
  apply drawnFrom_readPieces
  intro piece member
  rcases ((standsIn_of_mem_cut member).mono inside).letter with ⟨_, starts, _⟩
  exact ⟨starts.mem List.mem_cons_self, isLetterSymbol_of_mem_cut member⟩

theorem drawnFrom_readBalanced (scope : Scope) (branches : BranchPair Char)
    (place : Section) (inside : fragment.PartOf whole) :
    (readBalanced scope branches place fragment).DrawnFrom whole.text := by
  apply (drawnFrom_cut _ inside).bind
  intro emissions _
  apply (drawnFrom_lift _).bind
  exact fun _ _ => drawnFrom_pure _

/-! ## Rules -/

namespace Production

theorem drawnFrom_readPattern? {found : Option Fragment}
    (inside : ∀ part ∈ found, part.PartOf whole) :
    (readPattern? found).DrawnFrom whole.text := by
  cases found with
  | none => exact drawnFrom_pure _
  | some part => exact drawnFrom_cut _ (inside part rfl)

theorem drawnFrom_readContext (branches : BranchPair Char)
    (inside : fragment.PartOf whole) :
    (readContext branches fragment).DrawnFrom whole.text := by
  apply (drawnFrom_lift _).bind
  intro outline isOutline
  have cuts := ContextOutline.cuts_of_ofFragment isOutline
  apply (drawnFrom_readPattern? fun part isLeft =>
    (cuts.left_partOf part isLeft).trans inside).bind
  intro left _
  apply (drawnFrom_cut _ (cuts.target_partOf.trans inside)).bind
  intro targets _
  apply (drawnFrom_readPattern? fun part isRight =>
    (cuts.right_partOf part isRight).trans inside).bind
  intro right _
  apply (drawnFrom_lift _).bind
  intro target _
  apply (drawnFrom_lift _).bind
  exact fun _ _ => drawnFrom_pure _

theorem drawnFrom_read (globals : List String) (branches : BranchPair Char)
    (text : String) :
    (read globals branches text).DrawnFrom text.toList := by
  apply (drawnFrom_lift _).bind
  intro outline isOutline
  rcases Outline.cuts_of_ofText? (Outline.ofText?_eq_some isOutline) with ⟨_, cuts⟩
  apply (drawnFrom_lift _).bind
  intro probability _
  apply (drawnFrom_readContext branches cuts.context_partOf).bind
  intro context _
  apply (drawnFrom_lift _).bind
  intro captured _
  apply (drawnFrom_lift _).bind
  intro scope _
  apply (drawnFrom_lift _).bind
  intro condition _
  apply (drawnFrom_readBalanced _ branches _ cuts.replacement_partOf).bind
  exact fun _ _ => drawnFrom_pure _

theorem drawnFrom_readAll (globals : List String)
    (branches : BranchPair Char) (index : Nat) (texts : List String) :
    (readAll globals branches index texts).DrawnFrom (texts.flatMap String.toList) := by
  induction texts generalizing index with
  | nil => exact drawnFrom_pure _
  | cons text rest induction =>
      rw [readAll, List.flatMap_cons]
      have first :
          Reading.DrawnFrom (α := Production) (text.toList ++ rest.flatMap String.toList)
          ⟨(read globals branches text).letters,
            (read globals branches text).outcome.mapError (·.inRule index)⟩ :=
        (drawnFrom_read globals branches text).mono fun _ => List.mem_append_left _
      apply first.bind
      intro production _
      apply ((induction (index + 1)).mono fun _ => List.mem_append_right _).bind
      exact fun _ _ => drawnFrom_pure _

end Production

end Pieces

end LSystems
