import LSystems.Decimal.Numeral

/-!
# Data

The data that files hold: leaves, lists, and tables that give their entries names. A
table names each of its entries once.
-/

namespace LSystems

inductive Datum
  | null
  | boolean (value : Bool)
  | integer (value : Int)
  | float (value : Float)
  | string (value : String)
  | list (items : List Datum)
  | table (entries : List (String × Datum))

namespace Datum

variable {α : Type}

def insert (name : String) (value : α) : List (String × α) → List (String × α)
  | [] => [(name, value)]
  | (other, old) :: rest =>
    if other = name then (name, value) :: rest else (other, old) :: insert name value rest

def entries : Datum → List (String × Datum)
  | table entries => entries
  | _ => []

def items : Datum → List Datum
  | list items => items
  | _ => []

def changeEntry (name : String) (update : Datum → Datum) (base : Datum) : Datum :=
  table (insert name (update ((base.entries.lookup name).getD null)) base.entries)

mutual

/-- Lays a datum over another one: tables are merged entry by entry, and anything else
takes the place of what was there. -/
def overlay (base : Datum) : Datum → Datum
  | table entries => overlayAll (table base.entries) entries
  | value => value

def overlayAll (base : Datum) : List (String × Datum) → Datum
  | [] => base
  | (name, value) :: rest =>
      overlayAll (base.changeEntry name fun old => overlay old value) rest

end

/-- The items that go with a row of names: a table gives them by name and a list in
order. -/
def fields? (names : List String) : Datum → Option (String → Option Datum)
  | table entries => some fun name => entries.lookup name
  | list items => some fun name => (names.zip items).lookup name
  | _ => none

end Datum

end LSystems
