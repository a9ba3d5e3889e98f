import LSystems.Settings.Basic
import LSystems.Settings.Conversion

/-!
# Settings as data

Settings are a table of tables. What a table leaves out has its default value, and
entries with other names do not count. A list stands for a table as well: its items are
the values in their order.
-/

namespace LSystems

def optional {α : Type} (convert? : Datum → Option α) (fallback : α) :
    Option Datum → Option α
  | none => some fallback
  | some datum => convert? datum

def Datum.listOf? {α : Type} (convert? : Datum → Option α) : Datum → Option (List α)
  | list items => items.mapM convert?
  | _ => none

def Datum.character? : Datum → Option Char
  | string text =>
    match text.toList with
    | [character] => some character
    | _ => none
  | _ => none

namespace GlobalParameter

def fieldNames : List String := ["name", "value"]

def ofDatum? (conversion : Conversion) (datum : Datum) : Option GlobalParameter := do
  let field ← datum.fields? fieldNames
  return ⟨← conversion.string? (← field "name"), ← conversion.float? (← field "value")⟩

def datum (parameter : GlobalParameter) : Datum :=
  .table [("name", .string parameter.name), ("value", .float parameter.value)]

end GlobalParameter

namespace SystemSettings

def sectionName : String := "system"

def fieldNames : List String :=
  ["axiom", "rules", "global_parameters", "iterations", "seed"]

def ofDatum? (conversion : Conversion) (datum : Datum) : Option SystemSettings := do
  let field ← datum.fields? fieldNames
  let start ← optional conversion.string? default.start (field "axiom")
  let rules ← optional (Datum.listOf? conversion.string?) default.rules (field "rules")
  let globals ← optional
    (Datum.listOf? (GlobalParameter.ofDatum? conversion)) default.globals
    (field "global_parameters")
  let iterations ← optional conversion.natural? default.iterations (field "iterations")
  let seed ← optional conversion.natural? default.seed.toNat (field "seed")
  return { start, rules, globals, iterations, seed := UInt64.ofNat seed }

end SystemSettings

namespace CompilerSettings

def sectionName : String := "compiler"

def fieldNames : List String :=
  ["branch_open", "branch_close", "ignored_symbols", "probability_epsilon"]

def ofDatum? (conversion : Conversion) (datum : Datum) : Option CompilerSettings := do
  let field ← datum.fields? fieldNames
  let opening ← optional Datum.character? default.opening (field "branch_open")
  let closing ← optional Datum.character? default.closing (field "branch_close")
  let ignored ← optional conversion.string? default.ignored (field "ignored_symbols")
  let tolerance ← optional conversion.float? default.tolerance
    (field "probability_epsilon")
  return { opening, closing, ignored, tolerance }

end CompilerSettings

namespace SteppingSettings

def sectionName : String := "stepping"

def fieldNames : List String := ["parallel", "batch_size", "worker_threads"]

def workers? (conversion : Conversion) : Datum → Option (Option Nat)
  | .null => some none
  | datum => (conversion.natural? datum).map some

def ofDatum? (conversion : Conversion) (datum : Datum) : Option SteppingSettings := do
  let field ← datum.fields? fieldNames
  let parallel ← optional conversion.boolean? default.parallel (field "parallel")
  let batchSize ← optional conversion.natural? default.batchSize (field "batch_size")
  let workers ← optional (workers? conversion) default.workers (field "worker_threads")
  return { parallel, batchSize, workers }

end SteppingSettings

namespace Settings

def sectionNames : List String :=
  [SystemSettings.sectionName, CompilerSettings.sectionName, SteppingSettings.sectionName]

def ofDatum? (conversion : Conversion) (datum : Datum) : Option Settings := do
  let field ← datum.fields? sectionNames
  let system ← optional (SystemSettings.ofDatum? conversion) .default
    (field SystemSettings.sectionName)
  let compiler ← optional (CompilerSettings.ofDatum? conversion) .default
    (field CompilerSettings.sectionName)
  let stepping ← optional (SteppingSettings.ofDatum? conversion) .default
    (field SteppingSettings.sectionName)
  return { system, compiler, stepping }

end Settings

end LSystems
