import LSystems.Table.Rule

/-!
# Rule tables

A table joins productions with equal signatures to rules and ranks the rules.
Productions of one rule either are one without a probability, or all carry
probabilities, none of them negative, that sum to one within a tolerance.
-/

namespace LSystems

structure TableSettings where
  branches : BranchPair Symbol
  ignored : SymbolSet
  tolerance : Float

def defaultTolerance : Float := 1e-4

/-- What productions of one rule have in common. -/
structure Signature where
  target : Shape
  left : LeftContext
  right : RightContext
  condition : Option String
deriving DecidableEq

/-- The signature of a production. Conditions are compared as texts. -/
def Production.signature (code : Char → Symbol) (branches : BranchPair Symbol)
    (production : Production) : Signature where
  target := production.target.shape code
  left := production.left.map (PatternSymbol.shape code)
  right := .ofShapes branches (production.right.map (PatternSymbol.shape code))
  condition := production.condition.map fun condition => condition.source.text

structure Member where
  source : Nat
  production : Production

/-- The members with one signature, the first apart from the others. -/
structure SignatureClass where
  signature : Signature
  first : Member
  others : List Member

namespace SignatureClass

def members (group : SignatureClass) : List Member :=
  group.first :: group.others

/-- Puts a member behind those with its signature, or into a class of its own behind all
others. -/
def insert (signature : Signature) (member : Member) :
    List SignatureClass → List SignatureClass
  | [] => [⟨signature, member, []⟩]
  | group :: groups =>
    if group.signature = signature then
      { group with others := group.others ++ [member] } :: groups
    else group :: insert signature member groups

def ofProductions (signature : Production → Signature) (productions : List Production) :
    List SignatureClass :=
  productions.zipIdx.foldl
    (fun groups (production, source) => insert (signature production)
      ⟨source, production⟩ groups) []

def probabilities (group : SignatureClass) : List (Float × Span) :=
  group.members.filterMap fun member => member.production.probability

/-- The sum of probabilities in order. The sum of none is minus zero. -/
def total (probabilities : List Float) : Float :=
  probabilities.foldl (· + ·) (-0.0)

def check (tolerance : Float) (group : SignatureClass) : Except Error Unit := do
  let members := group.members
  let sources := members.map Member.source
  let wholes := members.map fun member => member.production.span
  let probabilities := group.probabilities
  let annotations := probabilities.map Prod.snd
  if probabilities.isEmpty then
    if 1 < members.length then throw (.conflict (.severalDeterministic sources) wholes)
  else
    if probabilities.length < members.length then
      throw (.probability (.partlyStochastic sources) wholes)
    if let some member := members.find? fun member =>
        member.production.probability.any fun (value, _) => !decide (0 ≤ value) then
      throw (.probability (.negativeProbability member.source) annotations)
    let sum := total (probabilities.map Prod.fst)
    if tolerance < (sum - 1).abs then
      throw (.probability (.probabilitySum sources sum) annotations)

def outcome (code : Char → Symbol) (member : Member) : Outcome where
  probability := (member.production.probability.map Prod.fst).getD 1
  replacement := member.production.replacement.map (Emission.rename code)
  source := member.source

/-- The rule that the members make up. Its contexts and its condition are those of the
first. -/
def rule (code : Char → Symbol) (id : Nat) (group : SignatureClass) : Rule where
  id
  target := group.signature.target
  left := group.signature.left
  right := group.signature.right
  condition := group.first.production.condition
  capturedCount := group.first.production.captured.length
  outcomes := group.members.map (outcome code)
  text := group.first.production.text

end SignatureClass

structure RuleTable where
  rules : List Rule
  ranked : List Rule
  globals : List String
  settings : TableSettings

namespace RuleTable

/-- The rules with the higher specificity first; rules with equal specificity keep their
order. -/
def rank (rules : List Rule) : List Rule :=
  rules.mergeSort fun left right => right.specificity ≤ left.specificity

def ofProductions (settings : TableSettings) (globals : List String)
    (code : Char → Symbol) (productions : List Production) : Except Error RuleTable := do
  let classes :=
    SignatureClass.ofProductions (Production.signature code settings.branches) productions
  classes.forM (SignatureClass.check settings.tolerance)
  let rules := classes.zipIdx.map fun (group, id) => group.rule code id
  return { rules, ranked := rank rules, globals, settings }

def candidates (table : RuleTable) (symbol : Symbol) : List Rule :=
  table.ranked.filter fun rule => rule.target.symbol = symbol

def scene (table : RuleTable) (word : Word) : Scene :=
  .ofWord table.settings.branches table.settings.ignored word

def find? (table : RuleTable) (scene : Scene) (globals : List Float) (position : Nat) :
    Option (Rule × List Float) :=
  match scene.symbol? position with
  | none => none
  | some symbol =>
    (table.candidates symbol).findSome? fun rule =>
      (rule.match? scene globals position).map fun captured => (rule, captured)

end RuleTable

/-! ## Reading rules -/

def Production.readAll (globals : List String) (branches : BranchPair Char) :
    (index : Nat) → List String → Reading (List Production)
  | _, [] => pure []
  | index, text :: texts => do
    let reading := Production.read globals branches text
    let first ← (⟨reading.letters, reading.outcome.mapError (·.inRule index)⟩ :
      Reading Production)
    let rest ← readAll globals branches (index + 1) texts
    return first :: rest

/-- Reads rules and joins them to a table. The alphabet takes in their letters, also if
this fails. -/
def Alphabet.compileTable (alphabet : Alphabet) (branches : BranchPair Char)
    (ignored : SymbolSet) (tolerance : Float) (globals : List String)
    (texts : List String) : Except Error RuleTable × Alphabet :=
  let (outcome, alphabet) := alphabet.take (Production.readAll globals branches 0 texts)
  let settings : TableSettings := ⟨alphabet.codes branches, ignored, tolerance⟩
  (outcome.bind (RuleTable.ofProductions settings globals alphabet.code), alphabet)

end LSystems
