import LSystems.CommandLine

/-!
# The program

Files and environment variables are read here and handed to the commands, and what the
commands report is printed.
-/

namespace LSystems.Program

def textOf? (path : String) : IO (Option String) := do
  try
    return some (← IO.FS.readFile path)
  catch _ =>
    return none

def isWritten (path text : String) : IO Bool := do
  try
    IO.FS.writeFile path text
    return true
  catch _ =>
    return false

def environment : IO (List (String × String)) :=
  Settings.variableNames.filterMapM fun name => do
    return (← IO.getEnv name).map fun text => (name, text)

def formatOf? (path : String) : Option FileFormat :=
  (Text.splitAt '.' path.toList).getLast?.bind fun ending =>
    FileFormat.ofEnding? (String.ofList ending)

def finish (report : Report) : IO UInt32 := do
  IO.print report.output
  IO.eprint report.complaint
  return UInt32.ofNat report.status

def usage : String :=
  "usage: run CONFIG [--steps N] [--seed S] [--all] [--progress] | init PATH | manifest"

end LSystems.Program

open LSystems LSystems.Program in
def main (arguments : List String) : IO UInt32 := do
  match arguments with
  | "run" :: rest =>
    match RunOptions.none.read rest with
    | some (options, [path]) =>
      let format? := formatOf? path
      let text? ← if format?.isSome then textOf? path else pure none
      finish (Command.run path (format?.getD .toml) text? (← environment) options)
    | _ =>
      IO.eprintln usage
      return 2
  | ["init", path] =>
    match Command.initialText with
    | .ok text => finish (Command.init path (← isWritten path text))
    | .error _ => finish (Command.init path false)
  | ["manifest"] => finish Command.manifest
  | _ =>
    IO.eprintln usage
    return 2
