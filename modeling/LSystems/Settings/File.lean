import LSystems.Settings.Data
import LSystems.Toml.Write

/-!
# Settings as text

Settings are saved with every field in its place. The list of global parameters is a
list of tables, so it comes last in its section, unless it is empty.
-/

namespace LSystems

namespace SystemSettings

def entries (settings : SystemSettings) : List (String × Datum) :=
  [("axiom", .string settings.start), ("rules", .list (settings.rules.map .string))] ++
    (if settings.globals.isEmpty then [("global_parameters", .list [])] else []) ++
    [("iterations", .integer settings.iterations), ("seed", .integer settings.seed.toNat)]

def blocks (settings : SystemSettings) : List String :=
  Toml.block "[system]" settings.entries ::
    settings.globals.map fun parameter =>
      Toml.block "[[system.global_parameters]]" parameter.datum.entries

end SystemSettings

namespace CompilerSettings

def entries (settings : CompilerSettings) : List (String × Datum) :=
  [("branch_open", .string (String.singleton settings.opening)),
    ("branch_close", .string (String.singleton settings.closing)),
    ("ignored_symbols", .string settings.ignored),
    ("probability_epsilon", .float settings.tolerance)]

end CompilerSettings

namespace SteppingSettings

def entries (settings : SteppingSettings) : List (String × Datum) :=
  [("parallel", .boolean settings.parallel), ("batch_size", .integer settings.batchSize),
    ("worker_threads", (settings.workers.map fun count => .integer count).getD .null)]

end SteppingSettings

namespace Settings

def isWritable (settings : Settings) : Bool :=
  let numbers := [settings.system.iterations, settings.system.seed.toNat,
    settings.stepping.batchSize, settings.stepping.workers.getD 0]
  numbers.all fun number => number < Numeral.signedRange

def text (settings : Settings) : Except Error String :=
  if settings.isWritable then
    .ok <| Toml.joinBlocks <| settings.system.blocks ++
      [Toml.block "[compiler]" settings.compiler.entries,
        Toml.block "[stepping]" settings.stepping.entries]
  else .error (.configuration .notSerialised)

end Settings

end LSystems
