import LSystems.Derivation.Run
import LSystems.Settings.Manifest
import LSystems.Settings.Store

/-!
# Commands

What a command prints and how it ends is worked out here, from the texts that the
outside hands in.
-/

namespace LSystems

structure Failure where
  context : Option String
  error : Error

structure Report where
  lines : List String
  failure : Option Failure

namespace Report

def success (lines : List String) : Report := ⟨lines, none⟩

def failed (lines : List String) (context : Option String) (error : Error) : Report :=
  ⟨lines, some ⟨context, error⟩⟩

def status (report : Report) : Nat :=
  if report.failure.isSome then 1 else 0

def output (report : Report) : String :=
  String.join (report.lines.map (· ++ "\n"))

def indent (text : String) : String :=
  String.ofList (text.toList.flatMap fun character =>
    if character = '\n' then "\n    ".toList else [character])

def complaint (report : Report) : String :=
  match report.failure with
  | none => ""
  | some ⟨none, error⟩ => "Error: " ++ error.message ++ "\n"
  | some ⟨some context, error⟩ =>
    "Error: " ++ context ++ "\n\nCaused by:\n    " ++ indent error.message ++ "\n"

end Report

/-! ## Running a system -/

structure RunOptions where
  /-- The number of steps in the place of the one in the settings. -/
  steps : Option Nat
  /-- The seed in the place of the one in the settings. -/
  seed : Option UInt64
  /-- Print every generation, and not the last one only. -/
  all : Bool
  /-- Print how the steps go on. -/
  progress : Bool

namespace RunOptions

def none : RunOptions := ⟨.none, .none, false, false⟩

def give (options : RunOptions) (name : String) (value : Option String) :
    Option RunOptions :=
  match name, value with
  | "--steps", some text => do
    guard options.steps.isNone
    return { options with steps := ← Conversion.naturalText? text }
  | "--seed", some text => do
    guard options.seed.isNone
    return { options with seed := UInt64.ofNat (← Conversion.naturalText? text) }
  | "--all", .none => if options.all then .none else some { options with all := true }
  | "--progress", .none =>
    if options.progress then .none else some { options with progress := true }
  | _, _ => .none

def hasValue (name : String) : Bool :=
  name = "--steps" || name = "--seed"

/-- Options after the ones given so far, and the arguments between them. A value stands
behind its option or behind an equals sign in it. -/
def read (options : RunOptions) : List String → Option (RunOptions × List String)
  | [] => some (options, [])
  | name :: arguments =>
    if hasValue name then
      match arguments with
      | [] => .none
      | value :: rest => do (← options.give name value).read rest
    else if name.toList.take 2 = ['-', '-'] then
      match Text.splitAt '=' name.toList with
      | [_] => do (← options.give name .none).read arguments
      | [name, value] =>
        do (← options.give (String.ofList name) (String.ofList value)).read arguments
      | _ => .none
    else do
      let (options, rest) ← options.read arguments
      return (options, name :: rest)

end RunOptions

def Event.line? : Event → Option String
  | started step length => some s!"Step {step + 1} starting from {length} symbols..."
  | matched _ _ => none
  | completed step length => some s!"Step {step + 1} complete. {length} symbols"

def Grammar.lines (grammar : Grammar) (options : RunOptions) (globals : List Float) :
    (steps : Nat) → Generation → List String × Except Error Generation
  | 0, generation => ([], .ok generation)
  | steps + 1, generation =>
    let report := grammar.stepWith generation globals false fun _ => false
    let progress := if options.progress then report.events.filterMap Event.line? else []
    match report.outcome with
    | .error error => (progress, .error error)
    | .ok next =>
      let shown := if options.all then [grammar.text next.word] else []
      let (rest, outcome) := grammar.lines options globals steps next
      (progress ++ shown ++ rest, outcome)

namespace Command

def runSettings (settings : Settings) (options : RunOptions) : Report :=
  match Grammar.ofSettings settings with
  | .error error => .failed [] "compiling rules" error
  | .ok grammar =>
    let seed := options.seed.getD settings.system.seed
    match grammar.reset settings.system.start seed with
    | (.error error, _) => .failed [] none error
    | (.ok first, grammar) =>
      let shown := if options.all then [grammar.text first.word] else []
      let steps := options.steps.getD settings.system.iterations
      let (lines, outcome) :=
        grammar.lines options settings.system.globalValues steps first
      match outcome with
      | .error error => .failed (shown ++ lines) none error
      | .ok last =>
        .success (shown ++ lines ++ if options.all then [] else [grammar.text last.word])

def run (path : String) (format : FileFormat) (text? : Option String)
    (environment : List (String × String)) (options : RunOptions) : Report :=
  match SettingsStore.default.take (.layers format text? environment) with
  | (.error error, _) => .failed [] s!"loading {path}" error
  | (.ok (), store) => runSettings store.settings options

def initialText : Except Error String :=
  SettingsStore.default.settings.text

def init (path : String) (isWritten : Bool) : Report :=
  let context := s!"writing {path}"
  match initialText with
  | .error error => .failed [] context error
  | .ok _ =>
    if isWritten then .success [s!"Wrote default config to {path}"]
    else .failed [] context (.configuration .notWritten)

def manifest : Report :=
  .success [Manifest.text Settings.manifests]

end Command

end LSystems
