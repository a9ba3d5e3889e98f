import LSystems.Datum
import LSystems.Text.Reader
import LSystems.Toml.Scalar

/-!
# Paths into data

A path leads from a datum to one inside it, by the names of entries and the indices of
items. What a path leads to is made on the way if it is not there yet.
-/

namespace LSystems

inductive Step
  /-- To the entry of a table. -/
  | entry (name : String)
  /-- To the item of a list, counted from the end if the index is negative. -/
  | item (index : Int)
deriving DecidableEq, Repr

abbrev Path := List Step

namespace Datum

/-- Changes the item with an index. Where the list does not reach that far it is filled
up with nulls, behind it or, for a negative index, in front of it. -/
def changeItem (index : Int) (update : Datum → Datum) (base : Datum) : Datum :=
  let distance := index.natAbs
  if 0 ≤ index then
    let filled := base.items ++ List.replicate (distance + 1 - base.items.length) null
    list (filled.modify distance update)
  else
    let filled := List.replicate (distance - base.items.length) null ++ base.items
    list (filled.modify (filled.length - distance) update)

def put (value : Datum) : Path → Datum → Datum
  | [], base => base.overlay value
  | .entry name :: path, base => base.changeEntry name (put value path)
  | .item index :: path, base => base.changeItem index (put value path)

example :
    put (string "B") [.entry "system", .entry "axiom"] (table [("seed", integer 1)]) =
    table [("seed", integer 1), ("system", table [("axiom", string "B")])] := by
  rfl

example : put (integer 2) [.item 1] (list [integer 0]) = list [integer 0, integer 2] := by
  rfl

example :
    put (integer 2) [.item (-2)] (list [integer 0]) = list [integer 2, integer 0] := by
  rfl

end Datum

namespace Path

open Text Text.Reader

def name : Reader String := do
  let row ← takeWhile Toml.isBare
  guard !row.isEmpty
  return String.ofList row

def blanks : Reader Unit := do
  let _ ← takeWhile fun character => character = ' ' || character = '\t'

def index : Reader Int := do
  blanks
  let isNegative ← accept "-"
  let row ← takeWhile Char.isDigit
  guard !row.isEmpty
  blanks
  let size : Int := Numeral.digitsValue row
  liftM (Numeral.within64 (if isNegative then -size else size))

def step? : Reader (Option Step) := do
  if ← accept "." then return some (.entry (← name))
  if ← accept "[" then
    let index ← index
    expect "]"
    return some (.item index)
  return none

def path : Reader Path := do
  let head ← name
  let tail ← values step?
  return .entry head :: tail

def read? (text : String) : Option Path :=
  readAll? path text

example : read? "a.b[-1]" = some [.entry "a", .entry "b", .item (-1)] := by decide +kernel

example : read? "a..b" = none ∧ read? "a[b]" = none := by decide +kernel

end Path

end LSystems
