import LSystems.Main
import LSystems.Expr.Json
import LSystems.Proofs.Brackets
import LSystems.Proofs.Context.Passage
import LSystems.Proofs.Context.Walks
import LSystems.Proofs.Context.Parents
import LSystems.Proofs.Context.Embedding
import LSystems.Proofs.Productions
import LSystems.Proofs.Expr.Parse
import LSystems.Proofs.Table.Classes
import LSystems.Proofs.Table.Alike
import LSystems.Proofs.Table.Captures
import LSystems.Proofs.Words
import LSystems.Proofs.Table.Sound
import LSystems.Proofs.Derivation.Decide
import LSystems.Proofs.Derivation.Place
import LSystems.Proofs.Derivation.Write
import LSystems.Proofs.Derivation.Fill
import LSystems.Proofs.Derivation.Step
import LSystems.Proofs.Derivation.Reached
import LSystems.Proofs.Derivation.Display
import LSystems.Proofs.Context.Trees
import LSystems.Proofs.Context.Search
import LSystems.Proofs.Context.InPlace
import LSystems.Proofs.Context.Reading
import LSystems.Proofs.Derivation.Layout
import LSystems.Proofs.Derivation.Running
import LSystems.Proofs.Errors
import LSystems.Proofs.Context.Pruning
import LSystems.Proofs.Context.Hidden
import LSystems.Proofs.Table.Hidden
import LSystems.Proofs.Expr.Written
import LSystems.Proofs.Production.Outline
import LSystems.Proofs.Production.Written
import LSystems.Proofs.Context.Ancestors
import LSystems.Proofs.Derivation.Events
import LSystems.Proofs.Renaming.Scenes
import LSystems.Proofs.Renaming.Rules
import LSystems.Proofs.Renaming.Classes
import LSystems.Proofs.Renaming.Grammars
import LSystems.Proofs.Renaming.Building
import LSystems.Proofs.Renaming.EarlierTexts
import LSystems.Proofs.Renaming.Exchange
import LSystems.Proofs.Table.Partition
import LSystems.Proofs.Table.Ranking
import LSystems.Proofs.Table.Choice
import LSystems.Proofs.Table.Around
import LSystems.Proofs.BracketWords
import LSystems.Proofs.Expr.Meaning
import LSystems.Proofs.Context.Walls
import LSystems.Proofs.Context.Rearranged
import LSystems.Proofs.Context.Siblings
import LSystems.Proofs.Table.Siblings
import LSystems.Proofs.Table.Conditions
import LSystems.Proofs.Production.ErrorPlaces
import LSystems.Proofs.Production.WellFormed
import LSystems.Proofs.Derivation.Uses
import LSystems.Proofs.Derivation.Seeds
import LSystems.Proofs.Derivation.Keys
import LSystems.Proofs.Derivation.Absorption
import LSystems.Proofs.Growth
import LSystems.Proofs.Concatenation
import LSystems.Proofs.Expr.Tiling
