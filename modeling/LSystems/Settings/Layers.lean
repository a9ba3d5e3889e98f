import LSystems.Json.Read
import LSystems.Path
import LSystems.Settings.Data
import LSystems.Toml.Read

/-!
# Layers of settings

Settings are loaded from a file with environment variables laid over it. Both say by
paths which data they are for: a file by its tables and by names that are paths
themselves, a variable by a name with two underscores for every point.
-/

namespace LSystems

inductive FileFormat
  | toml
  | json
deriving DecidableEq, Repr

namespace FileFormat

def ofEnding? : String → Option FileFormat
  | "toml" => some toml
  | "json" => some json
  | _ => none

def read? (format : FileFormat) (text : String) : Option (List (String × Datum)) :=
  let text := match text.toList with
    | '\ufeff' :: rest => String.ofList rest
    | _ => text
  let datum := match format with
    | toml => Toml.read? .second text
    | json => Json.read? text
  match datum with
  | some (.table entries) => some entries
  | _ => none

end FileFormat

abbrev Layer := List (Path × Datum)

namespace Layer

/-- The layer of a file's entries. An entry with a name that is no path is for nothing. -/
def ofEntries (entries : List (String × Datum)) : Layer :=
  entries.filterMap fun (name, datum) => do
    return (← Path.read? name, datum)

/-! ## Variables -/

def variableStart : String := "lsystem_"

def pointed : List Char → List Char
  | '_' :: '_' :: rest => '.' :: pointed rest
  | head :: rest => head :: pointed rest
  | [] => []

/-- A character in lower case, as far as that is ASCII. Besides the capital letters only
the sign of the kelvin has an ASCII letter for its lower case. -/
def lower (character : Char) : Char :=
  if character = '\u212a' then 'k' else character.toLower

def variablePath? (name : String) : Option Path :=
  let name := name.toList.map lower
  if variableStart.toList.isPrefixOf name then
    Path.read? (String.ofList (pointed (name.drop variableStart.length)))
  else none

example : variablePath? "LSYSTEM_STEPPING__BATCH_SIZE" =
    some [.entry "stepping", .entry "batch_size"] := by
  decide +kernel

/-- What the text of a variable stands for: a truth value, an integer, a double, or else
itself. -/
def variableDatum (text : String) : Datum :=
  let lower := text.toList.map Char.toLower
  if lower = "true".toList then .boolean true
  else if lower = "false".toList then .boolean false
  else
    match Numeral.integer? text, Numeral.float? text with
    | some value, _ => .integer value
    | none, some value => .float value
    | none, none => .string text

def ofEnvironment (environment : List (String × String)) : Layer :=
  environment.filterMap fun (name, text) => do
    return (← variablePath? name, variableDatum text)

def stack (layers : List Layer) : Datum :=
  layers.flatten.foldl (fun base (path, datum) => datum.put path base) (.table [])

end Layer

namespace Settings

/-- The settings of a text in TOML, with data taken for exactly what they are. -/
def ofText (text : String) : Except Error Settings :=
  match (Toml.read? .first text).bind (ofDatum? .exact) with
  | some settings => .ok settings
  | none => .error (.configuration .notParsed)

/-- The settings of a file, or of none, with variables laid over it. Here data are taken
for what they mean. -/
def ofLayers (format : FileFormat) (text? : Option String)
    (environment : List (String × String)) : Except Error Settings :=
  match text?.bind format.read? with
  | none => .error (.configuration .notLoaded)
  | some entries =>
    match ofDatum? .loose
      (Layer.stack [.ofEntries entries, .ofEnvironment environment]) with
    | some settings => .ok settings
    | none => .error (.configuration .notParsed)

def variableNames : List String :=
  let ofSection (name : String) (fields : List String) : List String :=
    name :: fields.map fun field => name ++ "__" ++ field
  let names := ofSection SystemSettings.sectionName SystemSettings.fieldNames ++
    ofSection CompilerSettings.sectionName CompilerSettings.fieldNames ++
    ofSection SteppingSettings.sectionName SteppingSettings.fieldNames
  names.map fun name =>
    String.ofList ((Layer.variableStart ++ name).toList.map Char.toUpper)

end Settings

end LSystems
