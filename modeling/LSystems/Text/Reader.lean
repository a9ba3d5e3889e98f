/-!
# Readers

A reader takes a value off the front of a text and leaves the rest, or fails. Readers of
larger forms are put together from readers of their parts.
-/

namespace LSystems.Text

abbrev Reader := StateT (List Char) Option

namespace Reader

variable {α : Type}

def readAll? (reader : Reader α) (text : String) : Option α :=
  match reader.run text.toList with
  | some (value, []) => some value
  | _ => none

def peek? : Reader (Option Char) := fun text => some (text.head?, text)

def next : Reader Char
  | [] => none
  | head :: tail => some (head, tail)

def takeWhile (isMember : Char → Bool) : Reader (List Char) :=
  fun text => some (text.takeWhile isMember, text.dropWhile isMember)

def take (count : Nat) : Reader (List Char) := fun text =>
  if count ≤ text.length then some (text.take count, text.drop count) else none

/-- Takes a row of characters if the text goes on with it, and says whether it does. -/
def accept (wanted : String) : Reader Bool := fun text =>
  if wanted.toList.isPrefixOf text then some (true, text.drop wanted.toList.length)
  else some (false, text)

def expect (wanted : String) : Reader Unit := do
  guard (← accept wanted)

def valuesUpTo (value? : Reader (Option α)) : (limit : Nat) → Reader (List α)
  | 0 => failure
  | limit + 1 => do
    match ← value? with
    | none => return []
    | some head => return head :: (← valuesUpTo value? limit)

/-- The values up to where there is none. Every value takes a character at least, so
there are no more values than characters. -/
def values (value? : Reader (Option α)) : Reader (List α) := do
  valuesUpTo value? ((← get).length + 1)

def separated (value : Reader α) (separator : Reader Bool) : Reader (List α) := do
  let head ← value
  let tail ← values do
    if ← separator then return some (← value) else return none
  return head :: tail

example : readAll? (separated next (accept ",")) "a,b,c" = some ['a', 'b', 'c'] := by
  decide +kernel

example : readAll? (separated next (accept ",")) "a,b," = none := by decide +kernel

end Reader

end LSystems.Text
