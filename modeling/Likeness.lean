import Likeness.Analysis
import Likeness.Aspect
import Likeness.Command.Arguments
import Likeness.Command.Flag
import Likeness.Command.Help
import Likeness.Command.Outcome
import Likeness.Command.Run
import Likeness.Comparison
import Likeness.Decimal.Binary64
import Likeness.Decimal.Literal
import Likeness.Decimal.Rounding
import Likeness.Decimal.Shortest
import Likeness.Decimal.Style
import Likeness.Discovery
import Likeness.Failure
import Likeness.Files.Disk
import Likeness.Files.Edit
import Likeness.Files.IoCause
import Likeness.Files.Node
import Likeness.Files.Path
import Likeness.Files.Workspace
import Likeness.Keyed
import Likeness.Main
import Likeness.Ranking
import Likeness.Report.Ink
import Likeness.Report.JsonText
import Likeness.Report.Summary
import Likeness.Settings.Basic
import Likeness.Settings.File
import Likeness.Source.Cleaning
import Likeness.Source.Role
import Likeness.Text.Blank
import Likeness.Text.Letters
import Likeness.Text.Numerals
import Likeness.Text.Ranges
import Likeness.Text.Utf8
import Likeness.Token.Kind
import Likeness.Token.Numbering
import Likeness.Token.Piece
import Likeness.Token.Vocabulary
import Likeness.Toml.Document
import Likeness.Toml.Printer
import Likeness.Toml.Quoted
import Likeness.Toml.Scalar
import Likeness.Toml.Space
import Likeness.Toml.Statement
import Likeness.Toml.Table
import Likeness.Toml.Value
import Likeness.Vector.Cosine
import Likeness.Vector.Grams
import Likeness.Vector.Tally
import Likeness.Weights
import Likeness.Proofs.Cleaning
import Likeness.Proofs.Classes
import Likeness.Proofs.Lexing
import Likeness.Proofs.Kinds
import Likeness.Proofs.Counting
import Likeness.Proofs.Separators
import Likeness.Proofs.Names
import Likeness.Proofs.Provenance
import Likeness.Proofs.Rendering
import Likeness.Proofs.Renaming
import Likeness.Proofs.Grammar
import Likeness.Proofs.Doubles
import Likeness.Proofs.WholeDoubles
import Likeness.Proofs.GramSums
import Likeness.Proofs.Orders
import Likeness.Proofs.Symmetry
import Likeness.Proofs.Rounding
import Likeness.Proofs.Quotients
import Likeness.Proofs.DoubleOrder
import Likeness.Proofs.Comparing
import Likeness.Proofs.Range
import Likeness.Proofs.PathOrder
import Likeness.Proofs.Signs
import Likeness.Proofs.Rankings
import Likeness.Proofs.ListingOrder
import Likeness.Proofs.Discovering
import Likeness.Proofs.Nearest
import Likeness.Proofs.Idempotence
import Likeness.Proofs.CheckedSettings
import Likeness.Proofs.Outcomes
import Likeness.Proofs.Reflexivity
import Likeness.Proofs.DecimalReading
import Likeness.Proofs.NumberText
import Likeness.Proofs.QuotedStrings
import Likeness.Proofs.SettingsText
import Likeness.Proofs.Windows
import Likeness.Proofs.WholeSums
import Likeness.Proofs.Proportion
import Likeness.Proofs.ZeroCounts
import Likeness.Proofs.Thresholds
import Likeness.Proofs.Numberings
import Likeness.Proofs.Accounts
import Likeness.Proofs.Parts
import Likeness.Proofs.Lines
import Likeness.Proofs.RankingFailures
import Likeness.Proofs.RoundedSums
import Likeness.Proofs.Rescaling
import Likeness.Proofs.PartialSettings
