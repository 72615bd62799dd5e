import MathMarkup.Text.Edit
import MathMarkup.Tex.Parser
import MathMarkup.Tex.Encoding
import MathMarkup.Typst.Encoding
import MathMarkup.Conversion.Tree
import MathMarkup.Typst.ForeignTree
import MathMarkup.Service
import MathMarkup.Options.Configuration
import MathMarkup.Proofs.Printing
import MathMarkup.Proofs.Failures
import MathMarkup.Proofs.Conservation
import MathMarkup.Proofs.CommentLines
import MathMarkup.Proofs.JointNesting
import MathMarkup.Proofs.GridShape
import MathMarkup.Proofs.StrictMode
import MathMarkup.Proofs.TokenSpacing
import MathMarkup.Proofs.LayoutOperands
import MathMarkup.Proofs.CallArguments
import MathMarkup.Proofs.RoundingCalls
import MathMarkup.Proofs.TextLiterals
import MathMarkup.Proofs.DepthLimit
import MathMarkup.Proofs.BracedTexts
import MathMarkup.Proofs.TreeHeight
import MathMarkup.Proofs.SourceText
import MathMarkup.Proofs.NormalForm
import MathMarkup.Proofs.ScriptOrders
import MathMarkup.Proofs.NumberSplits
import MathMarkup.Proofs.TextEscapes
import MathMarkup.Proofs.MatrixRows
import MathMarkup.Proofs.WordSpacing
import MathMarkup.Proofs.IncrementalWriting
import MathMarkup.Proofs.NumberArguments
import MathMarkup.Proofs.ScriptOperands
import MathMarkup.Proofs.RedundantBraces
import MathMarkup.Proofs.FoldedPrimes
import MathMarkup.Proofs.BlanksAroundMarks
import MathMarkup.Proofs.EnvironmentText
import MathMarkup.Proofs.ColumnSpecification
import MathMarkup.Proofs.LineEndings
import MathMarkup.Proofs.MacroDefinitions
import MathMarkup.Proofs.ConfigurationFiles
import MathMarkup.Proofs.OptionResolution
import MathMarkup.Proofs.PartnerPositions
