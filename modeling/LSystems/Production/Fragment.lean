import LSystems.Alphabet

/-!
# Fragments of rule texts

Patterns, replacements and words to start from share one form: letters, each with an
optional list of arguments in parentheses, and blanks between them. A text is first cut
into such pieces; what the arguments mean is decided afterwards.
-/

namespace LSystems

structure Fragment where
  offset : Nat
  text : List Char
deriving DecidableEq, Repr

namespace Fragment

def span (fragment : Fragment) : Span :=
  ⟨fragment.offset, fragment.text.length⟩

def isBlank (fragment : Fragment) : Bool :=
  fragment.text.all Text.isBlank

end Fragment

/-- The text up to the parenthesis that closes a list of arguments, and the text behind
it, when `depth` further parentheses are open. -/
def splitClosing? : (depth : Nat) → List Char → Option (List Char × List Char)
  | _, [] => none
  | depth, character :: rest =>
    if character = '(' then
      (splitClosing? (depth + 1) rest).map fun (inside, behind) =>
        (character :: inside, behind)
    else if character = ')' then
      match depth with
      | 0 => some ([], rest)
      | depth + 1 =>
        (splitClosing? depth rest).map fun (inside, behind) =>
          (character :: inside, behind)
    else
      (splitClosing? depth rest).map fun (inside, behind) => (character :: inside, behind)

example : splitClosing? 0 "a(b))c".toList = some ("a(b)".toList, ['c']) := by
  decide +kernel

theorem splitClosing?_eq {depth : Nat} {text inside behind : List Char}
    (split : splitClosing? depth text = some (inside, behind)) :
    text = inside ++ ')' :: behind := by
  induction text generalizing depth inside with
  | nil => simp [splitClosing?] at split
  | cons head tail induction =>
    have further {deeper : Nat}
        (found : (splitClosing? deeper tail).map
          (fun (inside, behind) => (head :: inside, behind)) = some (inside, behind)) :
        head :: tail = inside ++ ')' :: behind := by
      obtain ⟨⟨inner, rest⟩, inner_split, equal⟩ := Option.map_eq_some_iff.mp found
      simp only [Prod.mk.injEq] at equal
      obtain ⟨rfl, rfl⟩ := equal
      simpa using induction inner_split
    unfold splitClosing? at split
    split at split
    · exact further split
    · split at split
      · cases depth with
        | zero => simp_all
        | succ depth => exact further split
      · exact further split

/-- A letter with the text of its arguments. Its span reaches to the next letter. -/
structure Piece where
  letter : Char
  arguments : Option Fragment
  span : Span
deriving DecidableEq, Repr

def letterFault? (character : Char) : Option Fault :=
  if character = '(' || character = ')' then some .parenthesisSymbol
  else if reservedCharacters.contains character then some (.reservedSymbol character)
  else none

/-- Cuts a text into pieces, up to its end or to an error. Blanks in front are passed
over. -/
def cut (offset : Nat) (text : List Char) : List Piece × Option Error :=
  match text with
  | [] => ([], none)
  | letter :: rest =>
    if Text.isBlank letter then cut (offset + 1) rest
    else
      match letterFault? letter with
      | some fault => ([], some (.unreadable fault ⟨offset, 1⟩))
      | none =>
        match _body : Text.dropBlanks rest with
        | '(' :: body =>
          let opening := offset + 1 + (rest.length - (body.length + 1))
          match _split : splitClosing? 0 body with
          | none => ([], some (.unreadable .unclosedArguments ⟨opening, 1⟩))
          | some (inside, behind) =>
            let next := Text.dropBlanks behind
            let stop := offset + 1 + (rest.length - next.length)
            let (pieces, failure) := cut stop next
            (⟨letter, some ⟨opening + 1, inside⟩, ⟨offset, stop - offset⟩⟩ :: pieces,
              failure)
        | body =>
          let stop := offset + 1 + (rest.length - body.length)
          let (pieces, failure) := cut stop body
          (⟨letter, none, ⟨offset, stop - offset⟩⟩ :: pieces, failure)
termination_by text.length
decreasing_by
  · simp
  · have bodyLength := Text.length_dropBlanks_le rest
    have behindLength := Text.length_dropBlanks_le behind
    have parts := congrArg List.length (splitClosing?_eq _split)
    rw [_body] at bodyLength
    simp only [List.length_append, List.length_cons] at *
    omega
  · have bodyLength := Text.length_dropBlanks_le rest
    rw [_body] at bodyLength
    simp only [List.length_cons]
    omega

/-- Cuts a text at its commas. If groups count, a comma inside `depth` or more
parentheses does not cut. -/
def splitCommas (groups : Bool) : (depth : Nat) → List Char → List (List Char)
  | _, [] => [[]]
  | depth, character :: rest =>
    if character = ',' && depth = 0 then [] :: splitCommas groups depth rest
    else
      let deeper :=
        if !groups then depth
        else if character = '(' then depth + 1
        else if character = ')' then depth - 1
        else depth
      match splitCommas groups deeper rest with
      | [] => [[character]]
      | first :: further => (character :: first) :: further

example : splitCommas true 0 "a,f(b,c)".toList = ["a".toList, "f(b,c)".toList] := by
  decide +kernel

def locate (offset : Nat) : List (List Char) → List Fragment
  | [] => []
  | part :: parts => ⟨offset, part⟩ :: locate (offset + part.length + 1) parts

def Fragment.arguments (groups : Bool) (fragment : Fragment) : List Fragment :=
  if fragment.isBlank then []
  else locate fragment.offset (splitCommas groups 0 fragment.text)

/-- Gives a meaning to every piece in turn; a letter is met once its arguments have one.
-/
def readPieces {α : Type} (meaning : Piece → Except Error α) :
    List Piece × Option Error → Reading (List α)
  | ([], none) => pure []
  | ([], some error) => .lift (.error error)
  | (piece :: pieces, failure) => do
    let first ← Reading.lift (meaning piece)
    Reading.meet piece.letter
    let rest ← readPieces meaning (pieces, failure)
    return first :: rest

end LSystems
