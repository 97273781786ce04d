import ConcreteSyntax.GrammarRecursion
import ConcreteSyntax.SourceFiles
import ConcreteSyntax.DiagnosticReports
import ConcreteSyntax.Sessions
import ConcreteSyntax.TreeVisitors
import ConcreteSyntax.Proofs.TokenPlaces
import ConcreteSyntax.Proofs.GeneratedReadings
import ConcreteSyntax.Proofs.ConstructorMarks
import ConcreteSyntax.Proofs.ParserTotality
import ConcreteSyntax.Proofs.ErrorPlaces
import ConcreteSyntax.Proofs.FileJoins
import ConcreteSyntax.Proofs.TokenLayout
import ConcreteSyntax.Proofs.SameKinds
import ConcreteSyntax.Proofs.ViableTexts
import ConcreteSyntax.Proofs.SymbolLedgers
import ConcreteSyntax.Proofs.TableIndependence
import ConcreteSyntax.Proofs.BracketNesting
import ConcreteSyntax.Proofs.TreeRanges
import ConcreteSyntax.Proofs.LaidOutTexts
import ConcreteSyntax.Proofs.UnmetExpectations
import ConcreteSyntax.Proofs.InitialGroups
import ConcreteSyntax.Proofs.ConstructorFreeFiles
import ConcreteSyntax.Proofs.ReadNodes
import ConcreteSyntax.Proofs.Repetitions
import ConcreteSyntax.Proofs.LastTokens
import ConcreteSyntax.Proofs.SeparatedStatements
import ConcreteSyntax.Proofs.OmittedTypes
import ConcreteSyntax.Proofs.NodesInOrder
import ConcreteSyntax.Proofs.VisitedNodes
import ConcreteSyntax.Proofs.DrawnTokens
import ConcreteSyntax.Proofs.OutlineLines
import ConcreteSyntax.Proofs.MatchingClosers
import ConcreteSyntax.Proofs.CoverGroupings
import ConcreteSyntax.Proofs.PackedSets
