import LSystems.Derivation.Step
import LSystems.Settings.Basic

/-!
# Grammars

A grammar is a rule table with the alphabet that its rules were read with. It reads
words to start from, which may add letters to the alphabet, and steps them.
-/

namespace LSystems

structure Grammar where
  alphabet : Alphabet
  branches : BranchPair Char
  table : RuleTable
  stepping : SteppingSettings

namespace Grammar

/-- Compiles rules. The branch symbols get the first two numbers, and ignored letters
the next. -/
def build (rules globals : List String) (compiler : CompilerSettings)
    (stepping : SteppingSettings) : Except Error Grammar := do
  compiler.validate
  let alphabet := Alphabet.ofBranches compiler.opening compiler.closing
  let branches ← Alphabet.branchLetters compiler.opening compiler.closing
  let (ignored, alphabet) := alphabet.take (readLetters 0 compiler.ignored.toList)
  let ignored : SymbolSet := ⟨(← ignored).map alphabet.code⟩
  let (table, alphabet) :=
    alphabet.compileTable branches ignored compiler.tolerance globals rules
  let table ← table
  stepping.validate
  return { alphabet, branches, table, stepping }

def ofSettings (settings : Settings) : Except Error Grammar :=
  build settings.system.rules settings.system.globalNames settings.compiler
    settings.stepping

/-- Reads a word to start from. The letters of a text that cannot be read stay in the
alphabet. -/
def parseInitial (grammar : Grammar) (text : String) : Except Error Word × Grammar :=
  let (word, alphabet) := grammar.alphabet.parseInitial grammar.branches text
  (word, { grammar with alphabet })

def resetWord (grammar : Grammar) (word : Word) (seed : UInt64) :
    Except Error Generation := do
  (BracketTable.ofSymbols grammar.table.settings.branches word.symbols).validate
  return ⟨word, seed, 0⟩

def reset (grammar : Grammar) (text : String) (seed : UInt64) :
    Except Error Generation × Grammar :=
  let (word, grammar) := grammar.parseInitial text
  (word.bind fun word => grammar.resetWord word seed, grammar)

def stepWith (grammar : Grammar) (generation : Generation) (globals : List Float)
    (isCancelled : Bool) (cancels : Event → Bool) : StepReport :=
  grammar.table.stepWith grammar.stepping.batchSize generation globals isCancelled cancels

def step (grammar : Grammar) (generation : Generation) (globals : List Float) :
    Except Error Generation :=
  (grammar.stepWith generation globals false fun _ => false).outcome

def run (grammar : Grammar) (globals : List Float) (steps : Nat)
    (generation : Generation) : Except Error Generation × List Event :=
  grammar.table.run grammar.stepping.batchSize globals steps generation

def text (grammar : Grammar) (word : Word) : String :=
  word.text grammar.alphabet

end Grammar

end LSystems
