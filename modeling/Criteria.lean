import Criteria.Condition
import Criteria.Config
import Criteria.Config.File
import Criteria.Config.FileTree
import Criteria.Config.Json
import Criteria.Config.Yaml
import Criteria.Failure
import Criteria.Field
import Criteria.Json
import Criteria.Json.Members
import Criteria.Json.Number
import Criteria.Json.Reader
import Criteria.Json.Writer
import Criteria.Method
import Criteria.Name
import Criteria.Number.Decimal
import Criteria.Number.Double
import Criteria.Number.Layout
import Criteria.Number.Numeral
import Criteria.Number.Shortest
import Criteria.Operator
import Criteria.Operator.Location
import Criteria.Options
import Criteria.Processor
import Criteria.Processor.Builder
import Criteria.Processor.Description
import Criteria.Proofs.Method.History
import Criteria.Proofs.Name.Merging
import Criteria.Proofs.Number.DecimalGrids
import Criteria.Proofs.Number.Digits
import Criteria.Proofs.Number.Integers
import Criteria.Proofs.Number.LeadingInts
import Criteria.Proofs.Number.Midpoints
import Criteria.Proofs.Number.NearestMagnitudes
import Criteria.Proofs.Number.NumberGrammar
import Criteria.Proofs.Number.NumberTexts
import Criteria.Proofs.Number.PlainNumerals
import Criteria.Proofs.Number.PlainTexts
import Criteria.Proofs.Number.Rounding
import Criteria.Proofs.Number.ShortestDigits
import Criteria.Proofs.Number.WrittenDecimals
import Criteria.Proofs.Operator.Leftmost
import Criteria.Proofs.Operator.Tokens
import Criteria.Proofs.Processor.Capabilities
import Criteria.Proofs.Processor.Composition
import Criteria.Proofs.Processor.ErrorPolicy
import Criteria.Proofs.Processor.Interpretation
import Criteria.Proofs.Processor.Layers
import Criteria.Proofs.Processor.Plan
import Criteria.Proofs.Processor.Recording
import Criteria.Proofs.Processor.Settings
import Criteria.Proofs.Processor.SortKeys
import Criteria.Proofs.Record.Comparisons
import Criteria.Proofs.Record.DecidingKeys
import Criteria.Proofs.Record.Directions
import Criteria.Proofs.Record.Filtering
import Criteria.Proofs.Record.Groups
import Criteria.Proofs.Record.IntegerConditions
import Criteria.Proofs.Record.Pages
import Criteria.Proofs.Record.Paging
import Criteria.Proofs.Record.Passes
import Criteria.Proofs.Record.Ranges
import Criteria.Proofs.Record.Results
import Criteria.Proofs.Record.Sorting
import Criteria.Proofs.Record.TextConditions
import Criteria.Proofs.Record.TotalOrder
import Criteria.Proofs.Record.WrittenTexts
import Criteria.Proofs.Term.ClauseTexts
import Criteria.Proofs.Term.Decoding
import Criteria.Proofs.Term.Escaping
import Criteria.Proofs.Term.Misreading
import Criteria.Proofs.Term.OnePass
import Criteria.Proofs.Term.RoundTrip
import Criteria.Proofs.Term.Runs
import Criteria.Proofs.Term.Slices
import Criteria.Proofs.Term.SortNames
import Criteria.Proofs.Term.TextValues
import Criteria.Proofs.Term.Writing
import Criteria.Proofs.Text.Bytes
import Criteria.Proofs.Text.FinalSigma
import Criteria.Proofs.Text.Occurrences
import Criteria.Proofs.Text.Splitter
import Criteria.Proofs.Text.Splitting
import Criteria.Proofs.Text.Trimming
import Criteria.Proofs.Text.Unescaping
import Criteria.Record
import Criteria.Record.Matching
import Criteria.Record.Ordering
import Criteria.Record.Query
import Criteria.Request
import Criteria.Request.Json
import Criteria.Term.Filter
import Criteria.Term.Sort
import Criteria.Text.Blank
import Criteria.Text.Escape
import Criteria.Text.Lowercase
import Criteria.Text.LowercaseTable
import Criteria.Text.Parts
import Criteria.Value
import Criteria.Yaml
import Criteria.Yaml.Cursor
import Criteria.Yaml.Reader
import Criteria.Yaml.Scalar
