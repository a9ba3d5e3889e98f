import LSystems.Derivation.Grammar

/-!
# Runs

Settings describe a whole run: the rules are compiled, the text to start from is read,
and the word is stepped as often as the settings say.
-/

namespace LSystems.Settings

def begin (settings : Settings) : Except Error (Grammar × Generation) := do
  let grammar ← Grammar.ofSettings settings
  let (first, grammar) := grammar.reset settings.system.start settings.system.seed
  return (grammar, ← first)

def run (settings : Settings) : Except Error (Grammar × Generation) := do
  let (grammar, first) ← settings.begin
  let (last, _) :=
    grammar.run settings.system.globalValues settings.system.iterations first
  return (grammar, ← last)

end LSystems.Settings
