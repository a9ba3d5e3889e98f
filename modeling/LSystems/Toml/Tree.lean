import LSystems.Datum
import LSystems.Toml.Edition

/-!
# Trees of tables

A TOML text opens tables by headers and by dotted keys, in any order. While it is read,
every table remembers how it was opened, since that decides how it may be opened again.
-/

namespace LSystems.Toml

inductive Opening
  /-- By a header of its own. -/
  | header
  /-- By the header of a table in it. -/
  | implied
  /-- By a dotted key. -/
  | dotted
deriving DecidableEq, Repr

def Opening.takesKeys (edition : Edition) : Opening → Bool
  | header => false
  | implied => edition.extendsImplied
  | dotted => true

inductive Node
  | value (datum : Datum)
  | table (opening : Opening) (entries : List (String × Node))
  /-- A list whose tables each have a header. -/
  | tables (items : List (List (String × Node)))

abbrev Entries := List (String × Node)

namespace Node

mutual

def datum : Node → Datum
  | value datum => datum
  | table _ entries => .table (entryData entries)
  | tables items => .list (itemData items)

def entryData : List (String × Node) → List (String × Datum)
  | [] => []
  | (name, node) :: rest => (name, node.datum) :: entryData rest

def itemData : List (List (String × Node)) → List Datum
  | [] => []
  | entries :: rest => .table (entryData entries) :: itemData rest

end

end Node

namespace Entries

/-- Adds a value under a dotted key. The key leads through tables that no header of
their own opened, or through the last of a list of tables, to a table that it may add
to. No value is given twice. -/
def define (edition : Edition) (datum : Datum) :
    (key : List String) → Entries → Option Entries
  | [], _ => none
  | [name], entries =>
    match entries.lookup name with
    | none => some (Datum.insert name (.value datum) entries)
    | some _ => none
  | name :: rest, entries =>
    let endsHere := rest.length = 1
    match entries.lookup name with
    | none => do
      return Datum.insert name (.table .dotted (← define edition datum rest [])) entries
    | some (.table .header _) => none
    | some (.table opening inner) => do
      guard (!endsHere || opening.takesKeys edition)
      let opening := if endsHere then .dotted else opening
      return Datum.insert name
        (.table opening (← define edition datum rest inner)) entries
    | some (.tables items) => do
      guard !endsHere
      let last ← define edition datum rest (← items.getLast?)
      return Datum.insert name (.tables (items.dropLast ++ [last])) entries
    | some (.value _) => none

def defineAll (edition : Edition) (body : List (List String × Datum))
    (entries : Entries) : Option Entries :=
  body.foldlM (fun entries (key, datum) => define edition datum key entries) entries

/-- Opens the table of a header and adds the values below the header to it. A header
that is repeated adds a table to a list of tables; any other may only open a table that
is new or implied. -/
def openTable (edition : Edition) (isRepeated : Bool)
    (body : List (List String × Datum)) :
    (header : List String) → Entries → Option Entries
  | [], _ => none
  | [name], entries =>
    match entries.lookup name, isRepeated with
    | none, false => do
      return Datum.insert name (.table .header (← defineAll edition body [])) entries
    | none, true => do
      return Datum.insert name (.tables [← defineAll edition body []]) entries
    | some (.table .implied inner), false => do
      return Datum.insert name (.table .header (← defineAll edition body inner)) entries
    | some (.tables items), true => do
      return Datum.insert name (.tables (items ++ [← defineAll edition body []])) entries
    | _, _ => none
  | name :: rest, entries =>
    match entries.lookup name with
    | none => do
      return Datum.insert name
        (.table .implied (← openTable edition isRepeated body rest [])) entries
    | some (.table opening inner) => do
      return Datum.insert name
        (.table opening (← openTable edition isRepeated body rest inner)) entries
    | some (.tables items) => do
      let last ← items.getLast?
      let last ← openTable edition isRepeated body rest last
      return Datum.insert name (.tables (items.dropLast ++ [last])) entries
    | some (.value _) => none

end Entries

end LSystems.Toml
