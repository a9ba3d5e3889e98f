import LSystems.Production.Emission
import LSystems.Proofs.Expr.Scanning
import LSystems.Proofs.Letters
import Mathlib.Data.List.TakeWhile

/-!
# Rows of terms

A term is a letter with arguments, written as `F(a, b)`. Whatever the arguments stand
for, a row of terms is cut into one piece for each of them, and the arguments of a piece
are those of its term. So a row is read term by term. Main statements: `exists_cut`,
`exists_readPieces`.
-/

namespace LSystems

/-! ## Nested texts -/

/-- The text closes every parenthesis that it opens, and no other. -/
inductive Nested : List Char → Prop
  | nil : Nested []
  | free {character text} : character ∉ ['(', ')'] → Nested text →
      Nested (character :: text)
  | group {inside text} :
      Nested inside → Nested text → Nested ('(' :: (inside ++ ')' :: text))

section Texts

variable {text front back behind first : List Char} {further : List (List Char)}

theorem Nested.of_free (free : ∀ character ∈ text, character ∉ ['(', ')']) :
    Nested text := by
  induction text with
  | nil => exact .nil
  | cons head tail induction =>
      rcases List.forall_mem_cons.mp free with ⟨isFree, free⟩
      exact .free isFree (induction free)

theorem Nested.append (nested : Nested front) (behind : Nested back) :
    Nested (front ++ back) := by
  induction nested with
  | nil => exact behind
  | free isFree _ induction => exact .free isFree induction
  | group inside _ _ induction =>
      rw [List.cons_append, List.append_assoc, List.cons_append]
      exact .group inside induction

theorem Nested.splitClosing?_append (nested : Nested text) (depth : Nat)
    (behind : List Char) :
    splitClosing? depth (text ++ behind) =
      (splitClosing? depth behind).map fun (inside, rest) => (text ++ inside, rest) := by
  induction nested generalizing depth behind with
  | nil => simp
  | free isFree _ induction =>
      simp only [List.mem_cons, List.not_mem_nil, or_false, not_or] at isFree
      simp [splitClosing?, isFree, induction, Function.comp_def]
  | group _ _ onInside onText =>
      simp [splitClosing?, onInside, onText, Function.comp_def]

theorem Nested.splitClosing? (nested : Nested text) (behind : List Char) :
    splitClosing? 0 (text ++ ')' :: behind) = some (text, behind) := by
  rw [nested.splitClosing?_append]
  simp [LSystems.splitClosing?]

theorem Nested.splitCommas_append (nested : Nested text) (single : ',' ∉ text)
    {groups : Bool} {depth : Nat}
    (split : splitCommas groups depth behind = first :: further) :
    splitCommas groups depth (text ++ behind) = (text ++ first) :: further := by
  induction nested generalizing depth behind first with
  | nil => exact split
  | free isFree _ induction =>
      simp only [List.mem_cons, List.not_mem_nil, or_false, not_or] at isFree single
      have isSplit := induction single.2 split
      cases groups <;> simp [splitCommas, isFree, Ne.symm single.1, isSplit]
  | @group inside text _ _ onInside onText =>
      simp only [List.mem_cons, List.mem_append, not_or] at single
      have isSplit := onText single.2.2.2 split
      rw [List.cons_append, List.append_assoc, List.cons_append]
      cases groups with
      | false =>
          have closed : splitCommas false depth (')' :: (text ++ behind)) =
              (')' :: (text ++ first)) :: further := by simp [splitCommas, isSplit]
          simp [splitCommas, onInside single.2.1 closed]
      | true =>
          have closed : splitCommas true (depth + 1) (')' :: (text ++ behind)) =
              (')' :: (text ++ first)) :: further := by simp [splitCommas, isSplit]
          simp [splitCommas, onInside single.2.1 closed]

/-! ## Arguments -/

structure IsArgument (text : List Char) : Prop where
  nested : Nested text
  single : ',' ∉ text
  notBlank : text.all Text.isBlank = false

theorem IsArgument.of_plain (plain : ∀ character ∈ text, character ∉ reservedCharacters)
    (notBlank : ∃ character ∈ text, Text.isBlank character = false) :
    IsArgument text := by
  refine ⟨.of_free fun character member parenthesis => ?_, fun comma => ?_, ?_⟩
  · exact plain character member
      (List.mem_append_left [',', '<', '>', ':', '|'] parenthesis)
  · exact plain ',' comma (by decide)
  · rcases notBlank with ⟨character, member, notBlank⟩
    exact List.all_eq_false.mpr ⟨character, member, by simp [notBlank]⟩

/-- The part of a text is this text behind blanks. -/
def Padded (part text : List Char) : Prop :=
  ∃ blanks, blanks.all Text.isBlank = true ∧ part = blanks ++ text

theorem padded_splitCommas_blank {groups : Bool} {row : List Char}
    {texts : List (List Char)}
    (padded : List.Forall₂ Padded (splitCommas groups 0 row) (text :: texts)) :
    List.Forall₂ Padded (splitCommas groups 0 (' ' :: row)) (text :: texts) := by
  cases isSplit : splitCommas groups 0 row with
  | nil =>
      rw [isSplit] at padded
      contradiction
  | cons first further =>
      have blank : Nested [' '] := .of_free (by simp)
      have blankFirst := blank.splitCommas_append (by decide) isSplit
      rw [isSplit] at padded
      rcases padded with _ | ⟨⟨blanks, areBlank, rfl⟩, padded⟩
      rw [List.singleton_append] at blankFirst
      refine blankFirst ▸ .cons ⟨' ' :: blanks, ?_, rfl⟩ padded
      rw [List.all_cons, areBlank]
      rfl

theorem padded_splitCommas_intercalate (groups : Bool) {texts : List (List Char)}
    (nonempty : texts ≠ []) (arguments : ∀ text ∈ texts, IsArgument text) :
    List.Forall₂ Padded (splitCommas groups 0 ([',', ' '].intercalate texts)) texts := by
  induction texts with
  | nil => contradiction
  | cons text rest induction =>
      rcases List.forall_mem_cons.mp arguments with ⟨isArgument, arguments⟩
      have padded : Padded (text ++ []) text := ⟨[], rfl, List.append_nil text⟩
      cases rest with
      | nil =>
          have alone := isArgument.nested.splitCommas_append isArgument.single
            (rfl : splitCommas groups 0 [] = [[]])
          rw [List.intercalate_singleton, ← List.append_nil text, alone]
          exact .cons ⟨[], rfl, by simp⟩ .nil
      | cons next rest =>
          have comma (row : List Char) :
              splitCommas groups 0 (',' :: row) = [] :: splitCommas groups 0 row := by
            simp [splitCommas]
          rw [List.intercalate_cons_cons, List.append_assoc, List.cons_append,
            List.cons_append, List.nil_append,
            isArgument.nested.splitCommas_append isArgument.single (comma _)]
          exact .cons padded (padded_splitCommas_blank (induction nofun arguments))

theorem intercalate_induction {holds : List Char → Prop} (nil : holds [])
    (append : ∀ front back, holds front → holds back → holds (front ++ back))
    {between : List Char} (isBetween : holds between) {rows : List (List Char)}
    (areRows : ∀ row ∈ rows, holds row) : holds (between.intercalate rows) := by
  induction rows with
  | nil => exact nil
  | cons row rest induction =>
      rcases List.forall_mem_cons.mp areRows with ⟨isRow, areRows⟩
      cases rest with
      | nil =>
          rw [List.intercalate_singleton]
          exact isRow
      | cons next rest =>
          rw [List.intercalate_cons_cons]
          exact append _ _ (append _ _ isRow isBetween) (induction areRows)

theorem nested_intercalate {texts : List (List Char)}
    (arguments : ∀ text ∈ texts, IsArgument text) :
    Nested ([',', ' '].intercalate texts) :=
  intercalate_induction .nil (fun _ _ => Nested.append) (.of_free (by simp))
    fun text member => (arguments text member).nested

theorem isBlank_intercalate {texts : List (List Char)} (nonempty : texts ≠ [])
    (arguments : ∀ text ∈ texts, IsArgument text) :
    ([',', ' '].intercalate texts).all Text.isBlank = false := by
  cases texts with
  | nil => contradiction
  | cons text rest =>
      have notBlank := (arguments text (List.mem_cons_self ..)).notBlank
      cases rest with
      | nil => rwa [List.intercalate_singleton]
      | cons next rest =>
          rw [List.intercalate_cons_cons, List.append_assoc, List.all_append, notBlank,
            Bool.false_and]

theorem padded_locate {parts texts : List (List Char)}
    (padded : List.Forall₂ Padded parts texts) (offset : Nat) :
    List.Forall₂ (fun argument text => Padded argument.text text)
      (locate offset parts) texts := by
  induction padded generalizing offset with
  | nil => exact .nil
  | cons first _ induction => exact .cons first (induction _)

theorem padded_arguments (groups : Bool) (offset : Nat) {texts : List (List Char)}
    (arguments : ∀ text ∈ texts, IsArgument text) :
    List.Forall₂ (fun argument text => Padded argument.text text)
      (Fragment.arguments groups ⟨offset, [',', ' '].intercalate texts⟩) texts := by
  cases texts with
  | nil => exact .nil
  | cons text rest =>
      have notBlank :
          Fragment.isBlank ⟨offset, [',', ' '].intercalate (text :: rest)⟩ = false :=
        isBlank_intercalate (List.cons_ne_nil text rest) arguments
      rw [Fragment.arguments, notBlank]
      apply padded_locate
      exact padded_splitCommas_intercalate groups (List.cons_ne_nil text rest) arguments

end Texts

/-! ## Numerals and names -/

def numeralText (value : Float) : List Char :=
  (floatText value).toList

theorem not_mem_reserved_of_inNumber {character : Char}
    (inside : Token.inNumber character = true) :
    character ∉ reservedCharacters := by
  have none : reservedCharacters.all (!Token.inNumber ·) = true := by decide
  intro member
  simpa [inside] using List.all_eq_true.mp none character member

theorem not_mem_reserved_of_continuesName {character : Char}
    (continues : Text.continuesName character = true) :
    character ∉ reservedCharacters := by
  have none : reservedCharacters.all (!Text.continuesName ·) = true := by decide +kernel
  intro member
  simpa [continues] using List.all_eq_true.mp none character member

theorem not_mem_reserved_of_mem_numeralText {value : Float}
    (finite : value.isFinite = true) :
    ∀ character ∈ numeralText value, character ∉ reservedCharacters := by
  rcases exists_row_of_floatText finite with ⟨row, writes, isText⟩
  have plain : ∀ character ∈ row, character ∉ reservedCharacters := by
    intro character member
    apply not_mem_reserved_of_inNumber
    simpa [Token.inNumber] using writes.plain character member
  intro character member
  rw [numeralText, isText] at member
  split at member
  · rcases List.mem_cons.mp member with rfl | member
    · decide
    · exact plain _ member
  · exact plain _ member

theorem isArgument_numeralText {value : Float} (finite : value.isFinite = true) :
    IsArgument (numeralText value) := by
  apply IsArgument.of_plain (not_mem_reserved_of_mem_numeralText finite)
  rcases exists_row_of_floatText finite with ⟨row, writes, isText⟩
  rcases List.exists_mem_of_ne_nil row writes.nonempty with ⟨character, member⟩
  refine ⟨character, ?_, Token.isBlank_of_inNumber ?_⟩
  · rw [numeralText, isText]
    split
    · exact List.mem_cons_of_mem _ member
    · exact member
  · simpa [Token.inNumber] using writes.plain character member

theorem not_mem_reserved_of_mem_name {name : List Char}
    (isName : Text.isName name = true) :
    ∀ character ∈ name, character ∉ reservedCharacters :=
  fun _ member =>
    not_mem_reserved_of_continuesName (Text.continuesName_of_mem isName _ member)

theorem isArgument_name {name : List Char} (isName : Text.isName name = true) :
    IsArgument name := by
  apply IsArgument.of_plain (not_mem_reserved_of_mem_name isName)
  cases name with
  | nil => contradiction
  | cons head tail =>
      have member : head ∈ head :: tail := List.mem_cons_self ..
      exact ⟨head, member,
        Text.isBlank_of_continuesName (Text.continuesName_of_mem isName head member)⟩

/-! ## Terms -/

structure Term (α : Type) where
  letter : Char
  arguments : List α

section Rows

variable {α : Type} (render : α → List Char)

def Term.text (term : Term α) : List Char :=
  term.letter ::
    if term.arguments.isEmpty then []
    else '(' :: ([',', ' '].intercalate (term.arguments.map render) ++ [')'])

def rowText (terms : List (Term α)) : List Char :=
  terms.flatMap (Term.text render)

structure Term.Legible (term : Term α) : Prop where
  letter : isLetterSymbol term.letter = true
  arguments : ∀ value ∈ term.arguments, IsArgument (render value)

structure Shows (piece : Piece) (term : Term α) : Prop where
  letter : piece.letter = term.letter
  arguments : ∀ groups,
    List.Forall₂ (fun argument value => Padded argument.text (render value))
      ((piece.arguments.map (Fragment.arguments groups)).getD []) term.arguments

variable {render} {term : Term α} {terms : List (Term α)} {front back : List Char}

theorem Term.Legible.forall_map (legible : term.Legible render) :
    ∀ text ∈ term.arguments.map render, IsArgument text := by
  rintro _ member
  rcases List.mem_map.mp member with ⟨value, isValue, rfl⟩
  exact legible.arguments value isValue

/-! ## Cutting -/

def StartsWithLetter (text : List Char) : Prop :=
  ∀ letter ∈ text.head?, isLetterSymbol letter = true

theorem startsWithLetter_cons {letter : Char} (usable : isLetterSymbol letter = true)
    (text : List Char) : StartsWithLetter (letter :: text) := by
  rintro _ ⟨⟩
  exact usable

theorem dropBlanks_of_head? {text : List Char}
    (notBlank : ∀ character ∈ text.head?, Text.isBlank character = false) :
    Text.dropBlanks text = text := by
  cases text with
  | nil => rfl
  | cons head tail => simp [Text.dropBlanks, notBlank head rfl]

theorem dropBlanks_of_startsWithLetter {text : List Char}
    (starts : StartsWithLetter text) :
    Text.dropBlanks text = text :=
  dropBlanks_of_head? fun letter isHead =>
    (isLetterSymbol_iff.mp (starts letter isHead)).1

theorem dropBlanks_cons {letter : Char} (usable : isLetterSymbol letter = true)
    (text : List Char) :
    Text.dropBlanks (letter :: text) = letter :: text :=
  dropBlanks_of_startsWithLetter (startsWithLetter_cons usable text)

theorem dropBlanks_append (blank : front.all Text.isBlank = true) (text : List Char) :
    Text.dropBlanks (front ++ text) = Text.dropBlanks text :=
  List.dropWhile_append_of_pos (List.all_eq_true.mp blank)

theorem exists_cut_dropBlanks (offset : Nat) (text : List Char) :
    ∃ start, cut offset text = cut start (Text.dropBlanks text) := by
  induction text generalizing offset with
  | nil => exact ⟨offset, rfl⟩
  | cons head tail induction =>
      cases blank : Text.isBlank head with
      | true =>
          rw [cut, if_pos blank, Text.dropBlanks, List.dropWhile_cons_of_pos blank]
          exact induction (offset + 1)
      | false =>
          refine ⟨offset, ?_⟩
          rw [Text.dropBlanks, List.dropWhile_cons_of_neg (by simp [blank])]

section Cut

variable {letter : Char} (usable : isLetterSymbol letter = true) (offset : Nat)
include usable

theorem cut_letter {rest : List Char} (starts : StartsWithLetter (Text.dropBlanks rest)) :
    ∃ span stop, cut offset (letter :: rest) =
      (⟨letter, none, span⟩ :: (cut stop (Text.dropBlanks rest)).1,
        (cut stop (Text.dropBlanks rest)).2) := by
  rcases isLetterSymbol_iff.mp usable with ⟨notBlank, faultless⟩
  rw [cut, notBlank, faultless]
  simp only [Bool.false_eq_true, if_false]
  split
  · next body isBody =>
      -- What follows starts with a letter, so it is no list of arguments.
      rw [isBody] at starts
      exact absurd (starts '(' rfl) (by decide)
  · exact ⟨_, _, rfl⟩

theorem cut_arguments {blanks inside rest : List Char}
    (blank : blanks.all Text.isBlank = true)
    (closed : splitClosing? 0 (inside ++ ')' :: rest) = some (inside, rest)) :
    ∃ start span stop, cut offset (letter :: (blanks ++ '(' :: (inside ++ ')' :: rest))) =
      (⟨letter, some ⟨start, inside⟩, span⟩ :: (cut stop (Text.dropBlanks rest)).1,
        (cut stop (Text.dropBlanks rest)).2) := by
  have kept : Text.dropBlanks (blanks ++ '(' :: (inside ++ ')' :: rest)) =
      '(' :: (inside ++ ')' :: rest) := dropBlanks_append blank _
  rcases isLetterSymbol_iff.mp usable with ⟨notBlank, faultless⟩
  rw [cut, notBlank, faultless]
  simp only [Bool.false_eq_true, if_false]
  split
  · next body isBody =>
      cases List.cons.inj (isBody.symm.trans kept) |>.2
      split
      · next missing =>
          rw [closed] at missing
          contradiction
      · next first behind found =>
          rw [closed] at found
          cases found
          exact ⟨_, _, _, rfl⟩
  · next other =>
      exact absurd kept (other _)

end Cut

theorem cut_term (legible : term.Legible render) {rest : List Char}
    (starts : StartsWithLetter (Text.dropBlanks rest)) (offset : Nat) :
    ∃ piece stop, Shows render piece term ∧
      cut offset (term.text render ++ rest) =
        (piece :: (cut stop (Text.dropBlanks rest)).1,
          (cut stop (Text.dropBlanks rest)).2) := by
  rw [Term.text]
  cases areArguments : term.arguments with
  | nil =>
      rcases cut_letter legible.letter offset starts with ⟨span, stop, isCut⟩
      refine ⟨⟨term.letter, none, span⟩, stop, ⟨rfl, fun _ => ?_⟩, isCut⟩
      rw [areArguments]
      exact .nil
  | cons value values =>
      have arguments := legible.forall_map
      have closed := (nested_intercalate arguments).splitClosing? rest
      rcases cut_arguments legible.letter offset (rfl : [].all Text.isBlank = true)
        closed with
        ⟨start, span, stop, isCut⟩
      refine ⟨⟨term.letter,
        some ⟨start, [',', ' '].intercalate (term.arguments.map render)⟩, span⟩, stop,
        ⟨rfl, fun groups => ?_⟩, ?_⟩
      · exact List.forall₂_map_right_iff.mp (padded_arguments groups start arguments)
      · rw [← isCut, areArguments]
        simp

theorem startsWithLetter_rowText (legible : ∀ term ∈ terms, term.Legible render)
    (blank : back.all Text.isBlank = true) :
    StartsWithLetter (Text.dropBlanks (rowText render terms ++ back)) := by
  cases terms with
  | nil =>
      have nothing : Text.dropBlanks back = [] :=
        List.dropWhile_eq_nil_iff.mpr (List.all_eq_true.mp blank)
      rw [rowText, List.flatMap_nil, List.nil_append, nothing]
      nofun
  | cons term rest =>
      have usable := (List.forall_mem_cons.mp legible).1.letter
      have starts : StartsWithLetter (rowText render (term :: rest) ++ back) :=
        startsWithLetter_cons usable _
      rwa [dropBlanks_of_startsWithLetter starts]

theorem exists_cut (legible : ∀ term ∈ terms, term.Legible render)
    (blankFront : front.all Text.isBlank = true)
    (blankBack : back.all Text.isBlank = true) (offset : Nat) :
    ∃ pieces, cut offset (front ++ (rowText render terms ++ back)) = (pieces, none) ∧
      List.Forall₂ (Shows render) pieces terms := by
  rcases exists_cut_dropBlanks offset (front ++ (rowText render terms ++ back)) with
    ⟨start, same⟩
  rw [same, dropBlanks_append blankFront]
  clear same
  induction terms generalizing start with
  | nil =>
      have nothing : Text.dropBlanks back = [] :=
        List.dropWhile_eq_nil_iff.mpr (List.all_eq_true.mp blankBack)
      refine ⟨[], ?_, .nil⟩
      rw [rowText, List.flatMap_nil, List.nil_append, nothing, cut]
  | cons term rest induction =>
      rcases List.forall_mem_cons.mp legible with ⟨isLegible, furtherLegible⟩
      rcases cut_term isLegible (startsWithLetter_rowText furtherLegible blankBack)
        start with
        ⟨piece, stop, shows, isCut⟩
      rcases induction furtherLegible stop with ⟨pieces, areCut, shown⟩
      have whole : Text.dropBlanks (rowText render (term :: rest) ++ back) =
          term.text render ++ (rowText render rest ++ back) := by
        rw [rowText, List.flatMap_cons, List.append_assoc]
        exact dropBlanks_cons isLegible.letter _
      rw [areCut] at isCut
      exact ⟨piece :: pieces, whole ▸ isCut, .cons shows shown⟩

/-! ## Reading -/

theorem outcome_readPieces {β : Type} (meaning : Piece → Except Error β)
    (pieces : List Piece) :
    (readPieces meaning (pieces, none)).outcome = pieces.mapM meaning := by
  induction pieces with
  | nil =>
      rw [readPieces]
      rfl
  | cons piece rest induction =>
      rw [readPieces, List.mapM_cons, ← induction]
      simp only [Reading.outcome_bind, Reading.outcome_lift, Reading.outcome_meet,
        Reading.outcome_pure]
      rfl

theorem exists_readPieces {β : Type} {meaning : Piece → Except Error β}
    {reaches : β → Term α → Prop} (legible : ∀ term ∈ terms, term.Legible render)
    (step : ∀ term ∈ terms, ∀ piece, Shows render piece term →
      ∃ result, meaning piece = .ok result ∧ reaches result term)
    (blankFront : front.all Text.isBlank = true)
    (blankBack : back.all Text.isBlank = true) (offset : Nat) :
    ∃ results,
      (readPieces meaning
        (cut offset (front ++ (rowText render terms ++ back)))).outcome =
        .ok results ∧
      List.Forall₂ reaches results terms := by
  rcases exists_cut legible blankFront blankBack offset with ⟨pieces, isCut, shown⟩
  rw [isCut, outcome_readPieces]
  exact exists_mapM shown step

theorem ofPiece_eq (scope : Scope) (piece : Piece) :
    Emission.ofPiece scope piece = do
      let parameters ← ((piece.arguments.map (Fragment.arguments true)).getD []).mapM
        fun argument =>
          (scope.compile argument.text).mapError (Error.shift argument.offset)
      return ⟨piece.letter, parameters, piece.span⟩ := by
  rw [Emission.ofPiece]
  congr 2
  funext argument
  cases scope.compile argument.text <;> rfl

structure Emission.Meets (meets : BoundExpr → α → Prop) (emission : Emission Char)
    (term : Term α) : Prop where
  letter : emission.symbol = term.letter
  parameters : List.Forall₂ meets emission.parameters term.arguments

theorem Shows.exists_ofPiece {scope : Scope} {meets : BoundExpr → α → Prop}
    {piece : Piece} (shows : Shows render piece term)
    (compiles : ∀ value ∈ term.arguments, ∀ blanks : List Char,
      blanks.all Text.isBlank = true → ∃ bound,
      scope.compile (blanks ++ render value) = .ok bound ∧ meets bound value) :
    ∃ emission, Emission.ofPiece scope piece = .ok emission ∧
      emission.Meets meets term := by
  have compiled : ∃ parameters : List BoundExpr,
      ((piece.arguments.map (Fragment.arguments true)).getD []).mapM (fun argument =>
        (scope.compile argument.text).mapError (Error.shift argument.offset)) =
          .ok parameters ∧
      List.Forall₂ meets parameters term.arguments := by
    apply exists_mapM (shows.arguments true)
    rintro value isValue ⟨start, _⟩ ⟨blanks, blank, rfl⟩
    rcases compiles value isValue blanks blank with ⟨bound, isBound, isMet⟩
    exact ⟨bound, mapError_eq_ok.mpr isBound, isMet⟩
  rcases compiled with ⟨parameters, areCompiled, areMet⟩
  rw [ofPiece_eq]
  exact ⟨⟨piece.letter, parameters, piece.span⟩, bind_eq_ok.mpr ⟨_, areCompiled, rfl⟩,
    shows.letter, areMet⟩

theorem exists_readEmissions {scope : Scope} {meets : BoundExpr → α → Prop}
    (legible : ∀ term ∈ terms, term.Legible render)
    (compiles : ∀ term ∈ terms, ∀ value ∈ term.arguments, ∀ blanks : List Char,
      blanks.all Text.isBlank = true →
      ∃ bound, scope.compile (blanks ++ render value) = .ok bound ∧ meets bound value)
    (blankFront : front.all Text.isBlank = true)
    (blankBack : back.all Text.isBlank = true) (offset : Nat) :
    ∃ emissions,
      (readEmissions scope ⟨offset, front ++ (rowText render terms ++ back)⟩).outcome =
        .ok emissions ∧
      List.Forall₂ (Emission.Meets meets) emissions terms :=
  exists_readPieces legible
    (fun term isTerm _ shows => shows.exists_ofPiece (compiles term isTerm))
    blankFront blankBack offset

end Rows

end LSystems
