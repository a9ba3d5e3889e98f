import LSystems.Json.Write
import LSystems.Settings.Data

/-!
# Manifests

A manifest describes the fields of a section to those who fill it in.
-/

namespace LSystems

structure FieldManifest where
  name : String
  kind : String
  fallback : Datum
  /-- The least and the greatest value of a number. -/
  range : Option (Float × Float)
  description : String

structure Manifest where
  title : String
  fields : List FieldManifest

namespace FieldManifest

def datum (field : FieldManifest) : Datum :=
  .table
    [("name", .string field.name), ("field_type", .string field.kind),
      ("default", field.fallback),
      ("min", (field.range.map fun range => .float range.1).getD .null),
      ("max", (field.range.map fun range => .float range.2).getD .null),
      ("description", .string field.description)]

end FieldManifest

namespace Manifest

def datum (manifest : Manifest) : Datum :=
  .table [("section", .string manifest.title),
    ("fields", .list (manifest.fields.map (·.datum)))]

def text (manifests : List Manifest) : String :=
  Json.pretty (.list (manifests.map datum))

end Manifest

def SystemSettings.manifest : Manifest where
  title := "System"
  fields :=
    [⟨"axiom", "string", .string default.start, none, "Initial symbol string"⟩,
      ⟨"rules", "string[]", .list (default.rules.map .string), none, "Production rules"⟩,
      ⟨"global_parameters", "table[]", .list [], none,
        "Named values visible to every rule expression"⟩,
      ⟨"iterations", "integer", .integer default.iterations, some (0, 10000),
        "Generations to step"⟩,
      ⟨"seed", "integer", .integer default.seed.toNat, none, "Stochastic seed"⟩]

def CompilerSettings.manifest : Manifest where
  title := "Compiler"
  fields :=
    [⟨"branch_open", "char", .string (String.singleton default.opening), none,
        "Symbol that opens a branch"⟩,
      ⟨"branch_close", "char", .string (String.singleton default.closing), none,
        "Symbol that closes a branch"⟩,
      ⟨"ignored_symbols", "string", .string default.ignored, none,
        "Symbols invisible to context matching"⟩,
      ⟨"probability_epsilon", "float", .float default.tolerance, some (0, 1),
        "Tolerance on stochastic probability sums"⟩]

def SteppingSettings.manifest : Manifest where
  title := "Stepping"
  fields :=
    [⟨"parallel", "boolean", .boolean default.parallel, none,
        "Run matching and writing on worker threads"⟩,
      ⟨"batch_size", "integer", .integer default.batchSize, some (1, 1000000),
        "Symbols processed per parallel task"⟩,
      ⟨"worker_threads", "integer", .null, some (1, 1024),
        "Dedicated worker pool size, empty for the global pool"⟩]

def Settings.manifests : List Manifest :=
  [SystemSettings.manifest, CompilerSettings.manifest, SteppingSettings.manifest]

end LSystems
