import Metrology.Error
import Metrology.Numeral.Rounded
import Metrology.Scalar.Exact
import Metrology.Scalar.Double
import Metrology.Text.Utf16
import Metrology.Text.Blank
import Metrology.Expression.Printer
import Metrology.ExponentVector
import Metrology.Linear.Elimination
import Metrology.Linear.Combination
import Metrology.Datum
import Metrology.Datum.Edit
import Metrology.Registry.Bundled
import Metrology.Dimension.Shortest
import Metrology.Dimension.Equivalents
import Metrology.Catalogue
import Metrology.Session
import Metrology.Service
import Metrology.Proofs.Traversal
import Metrology.Proofs.Conversion
import Metrology.Proofs.Unambiguity
import Metrology.Proofs.Lexing
import Metrology.Proofs.Parsing
import Metrology.Proofs.Elimination
import Metrology.Proofs.Combinations
import Metrology.Proofs.Equivalents
import Metrology.Proofs.Printing
import Metrology.Proofs.Tables
import Metrology.Proofs.Rendering
import Metrology.Proofs.Reduction
import Metrology.Proofs.Shortest
import Metrology.Proofs.Relabelling
import Metrology.Proofs.SiArithmetic
import Metrology.Proofs.Comparison
import Metrology.Proofs.Prefixes
import Metrology.Proofs.Rounding
import Metrology.Proofs.Doubles
import Metrology.Proofs.NonFinite
import Metrology.Proofs.FractionLoop
import Metrology.Proofs.Finiteness
import Metrology.Proofs.FiniteComposition
import Metrology.Proofs.Range
import Metrology.Proofs.Writing
import Metrology.Proofs.SiConversion
import Metrology.Proofs.Errors
import Metrology.Proofs.Failures
import Metrology.Proofs.Effects
import Metrology.Proofs.Aliasing
import Metrology.Proofs.Overflow
import Metrology.Proofs.Joining
import Metrology.Proofs.InPlace
import Metrology.Proofs.Millionths
import Metrology.Proofs.FiniteMoves
import Metrology.Proofs.Totality
import Metrology.Proofs.Truncation
import Metrology.Proofs.Addition
import Metrology.Proofs.Documents
import Metrology.Proofs.Generation
import Metrology.Proofs.Constants
import Metrology.Proofs.Keys
import Metrology.Proofs.Approximation
import Metrology.Proofs.Legibility
import Metrology.Proofs.Classification
import Metrology.Proofs.Enumeration
import Metrology.Proofs.Accuracy
