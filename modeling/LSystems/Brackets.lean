import LSystems.Alphabet

/-!
# Brackets

Branch symbols pair up like brackets. The table tells the partner of every bracket that
has one, and the balance check names the first closing bracket with nothing to close, or
the last opening one that stays open.
-/

namespace LSystems

/-- The partners of the brackets in a row of symbols, and how many have none. -/
structure BracketTable where
  partners : Array (Option Nat)
  unmatchedOpening : Nat
  unmatchedClosing : Nat

namespace BracketTable

/-- What is known after the first symbols of a row: partners, the open brackets, the
innermost first, and the number of closing brackets without a partner. -/
structure Progress where
  partners : Array (Option Nat)
  opened : List Nat
  surplus : Nat

namespace Progress

def start : Progress := ⟨#[], [], 0⟩

def step (branches : BranchPair Symbol) (progress : Progress)
    (symbol : Symbol) : Progress :=
  let position := progress.partners.size
  if symbol = branches.opening then
    { progress with
      partners := progress.partners.push none
      opened := position :: progress.opened }
  else if symbol = branches.closing then
    match progress.opened with
    | [] =>
        { progress with
          partners := progress.partners.push none, surplus := progress.surplus + 1 }
    | innermost :: opened =>
      { progress with
        partners := (progress.partners.setIfInBounds innermost (some position)).push
          (some innermost)
        opened }
  else { progress with partners := progress.partners.push none }

end Progress

def ofSymbols (branches : BranchPair Symbol) (symbols : Array Symbol) : BracketTable :=
  let progress := symbols.foldl (Progress.step branches) Progress.start
  ⟨progress.partners, progress.opened.length, progress.surplus⟩

def partner? (table : BracketTable) (position : Nat) : Option Nat :=
  table.partners[position]?.join

example :
    let table := ofSymbols ⟨0, 1⟩ #[2, 0, 2, 0, 1]
    (List.range 6).map table.partner? = [none, none, none, some 4, some 3, none] := by
  decide +kernel

def isBalanced (table : BracketTable) : Bool :=
  table.unmatchedOpening = 0 && table.unmatchedClosing = 0

def validate (table : BracketTable) : Except Error Unit :=
  if 0 < table.unmatchedClosing then
    .error (.malformedWord (.surplusClosing table.unmatchedClosing))
  else if 0 < table.unmatchedOpening then
    .error (.malformedWord (.surplusOpening table.unmatchedOpening))
  else .ok ()

end BracketTable

/-- Refuses brackets without a partner in a row of located symbols, behind the given
open ones, the innermost first. -/
def checkBalance {α : Type} [DecidableEq α] (branches : BranchPair α) (place : Section) :
    (opened : List Span) → List (α × Span) → Except Error Unit
  | [], [] => .ok ()
  | innermost :: _, [] => .error (.unreadable (.surplusOpening place) innermost)
  | opened, (symbol, span) :: rest =>
    if symbol = branches.opening then checkBalance branches place (span :: opened) rest
    else if symbol = branches.closing then
      match opened with
      | [] => .error (.unreadable (.surplusClosing place) span)
      | _ :: opened => checkBalance branches place opened rest
    else checkBalance branches place opened rest

end LSystems
