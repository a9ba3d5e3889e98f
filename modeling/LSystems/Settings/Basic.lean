import LSystems.Alphabet
import LSystems.Table.Basic

/-!
# Settings

Settings describe a system, the letters and the tolerance it is compiled with, and how
it is stepped. Validation states what each part must satisfy; the first fault in the
order of the fields counts.
-/

namespace LSystems

structure GlobalParameter where
  name : String
  value : Float

structure SystemSettings where
  start : String
  rules : List String
  globals : List GlobalParameter
  iterations : Nat
  seed : UInt64

structure CompilerSettings where
  opening : Char
  closing : Char
  /-- Letters that context matching looks through. -/
  ignored : String
  tolerance : Float

structure SteppingSettings where
  parallel : Bool
  /-- The number of positions that are handled together. -/
  batchSize : Nat
  /-- The size of a pool of workers of its own. -/
  workers : Option Nat
deriving DecidableEq, Repr

structure Settings where
  system : SystemSettings
  compiler : CompilerSettings
  stepping : SteppingSettings

namespace SystemSettings

def default : SystemSettings :=
  ⟨"A", ["A -> AB", "B -> A"], [], 5, 0⟩

def globalNames (settings : SystemSettings) : List String :=
  settings.globals.map GlobalParameter.name

def globalValues (settings : SystemSettings) : List Float :=
  settings.globals.map GlobalParameter.value

/-- There is something to start from, and no global parameter is declared twice. -/
def validate (settings : SystemSettings) : Except Error Unit :=
  if settings.start.toList.all Text.isBlank then .error (.configuration .emptyAxiomText)
  else
    match Scope.firstRepeated? [] settings.globalNames with
    | some name => .error (.configuration (.repeatedGlobal name))
    | none => .ok ()

end SystemSettings

namespace CompilerSettings

def default : CompilerSettings :=
  ⟨'[', ']', "", defaultTolerance⟩

/-- The branch symbols are two different letters that are not ignored, and the tolerance
is at least zero and below one. -/
def validate (settings : CompilerSettings) : Except Error Unit := do
  if settings.opening = settings.closing then throw (.configuration .equalBranchSymbols)
  Alphabet.checkBranchSymbol settings.opening
  Alphabet.checkBranchSymbol settings.closing
  if let some letter := settings.ignored.toList.find?
      fun letter => letter = settings.opening || letter = settings.closing then
    throw (.configuration (.ignoredBranchSymbol letter))
  if !(decide (0 ≤ settings.tolerance) && decide (settings.tolerance < 1)) then
    throw (.configuration .toleranceRange)

end CompilerSettings

namespace SteppingSettings

def default : SteppingSettings :=
  ⟨true, 512, none⟩

def validate (settings : SteppingSettings) : Except Error Unit :=
  if settings.batchSize = 0 then .error (.configuration .emptyBatch)
  else if settings.workers = some 0 then .error (.configuration .noWorkers)
  else .ok ()

end SteppingSettings

namespace Settings

def default : Settings :=
  ⟨.default, .default, .default⟩

def validate (settings : Settings) : Except Error Unit := do
  settings.system.validate
  settings.compiler.validate
  settings.stepping.validate

end Settings

end LSystems
