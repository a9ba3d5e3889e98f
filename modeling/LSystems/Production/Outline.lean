import LSystems.Production.Fragment

/-!
# The outline of a rule

A rule is cut at its marks: the first arrow, a leading probability with its bar, the
first colon, and the signs around the symbol that is rewritten. Everything between the
marks is a fragment of the rule.
-/

namespace LSystems

structure Outline where
  /-- The text in the parentheses of the probability, and the span of the whole
  annotation. -/
  probability : Option (List Char × Span)
  context : Fragment
  condition : Option Fragment
  replacement : Fragment

namespace Outline

def splitArrow? : List Char → Option (List Char × List Char)
  | '-' :: '>' :: rest => some ([], rest)
  | [] => none
  | character :: rest =>
    (splitArrow? rest).map fun (before, behind) => (character :: before, behind)

/-- What starts with `P`, parentheses and a bar, with blanks allowed in front of each:
the text in the parentheses, its annotation's span, and the text behind the bar. -/
def splitProbability? (text : List Char) : Option (List Char × Span × Fragment) :=
  match Text.dropBlanks text with
  | 'P' :: named =>
    match Text.dropBlanks named with
    | '(' :: opened =>
      match splitClosing? 0 opened with
      | none => none
      | some (inside, closed) =>
        match Text.dropBlanks closed with
        | '|' :: rest =>
          let start := text.length - (named.length + 1)
          let stop := text.length - closed.length
          some (inside, ⟨start, stop - start⟩, ⟨text.length - rest.length, rest⟩)
        | _ => none
    | _ => none
  | _ => none

def splitMark (mark : Char) (fragment : Fragment) : Fragment × Option Fragment :=
  let before := fragment.text.takeWhile (· ≠ mark)
  match fragment.text.dropWhile (· ≠ mark) with
  | [] => (fragment, none)
  | _ :: behind =>
      (⟨fragment.offset, before⟩, some ⟨fragment.offset + before.length + 1, behind⟩)

def ofText? (text : List Char) : Option Outline := do
  let (before, behind) ← splitArrow? text
  let replacement : Fragment := ⟨before.length + 2, behind⟩
  match splitProbability? before with
  | some (inside, span, rest) =>
    let (context, condition) := splitMark ':' rest
    return ⟨some (inside, span), context, condition, replacement⟩
  | none =>
    let (context, condition) := splitMark ':' ⟨0, before⟩
    return ⟨none, context, condition, replacement⟩

end Outline

structure ContextOutline where
  left : Option Fragment
  target : Fragment
  right : Option Fragment

namespace ContextOutline

def occurrences (wanted : Char) (text : List Char) : List Nat :=
  (text.zipIdx.filter fun (character, _) => character = wanted).map Prod.snd

example : occurrences '<' "a<b<".toList = [1, 3] := by decide +kernel

def between (fragment : Fragment) (start stop : Nat) : Fragment :=
  ⟨fragment.offset + start, (fragment.text.take stop).drop start⟩

/-- Cuts the left side of a rule. Either sign may stand once, and `<` comes before `>`. -/
def ofFragment (fragment : Fragment) : Except Error ContextOutline :=
  let lefts := occurrences '<' fragment.text
  let rights := occurrences '>' fragment.text
  let stop := fragment.text.length
  match lefts, rights with
  | _ :: second :: _, _ =>
    .error (.unreadable .secondLeftContext ⟨fragment.offset + second, 1⟩)
  | _, _ :: second :: _ =>
    .error (.unreadable .secondRightContext ⟨fragment.offset + second, 1⟩)
  | [], [] => .ok ⟨none, fragment, none⟩
  | [left], [] =>
      .ok ⟨some (between fragment 0 left), between fragment (left + 1) stop, none⟩
  | [], [right] =>
    .ok ⟨none, between fragment 0 right, some (between fragment (right + 1) stop)⟩
  | [left], [right] =>
    if right < left then
      .error (.unreadable .contextOrder ⟨fragment.offset + right, left - right + 1⟩)
    else
      .ok ⟨some (between fragment 0 left), between fragment (left + 1) right,
        some (between fragment (right + 1) stop)⟩

end ContextOutline

end LSystems
