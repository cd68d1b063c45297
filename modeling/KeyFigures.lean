import KeyFigures.Benchmarks
import KeyFigures.Binary.Basic
import KeyFigures.Binary.Written
import KeyFigures.Cache.Basic
import KeyFigures.Cache.Limits
import KeyFigures.Cache.Shared
import KeyFigures.CommandLine.Address
import KeyFigures.CommandLine.Options
import KeyFigures.CommandLine.Report
import KeyFigures.CommandLine.Run
import KeyFigures.Database.Balances
import KeyFigures.Database.Basic
import KeyFigures.Database.Column
import KeyFigures.Database.Formulas
import KeyFigures.Decimal.Arithmetic
import KeyFigures.Decimal.Basic
import KeyFigures.Decimal.Written
import KeyFigures.Digest.Sha256
import KeyFigures.Display
import KeyFigures.Evaluation
import KeyFigures.Exchange.Calls
import KeyFigures.Exchange.Clocks
import KeyFigures.Exchange.Databases
import KeyFigures.Exchange.Definitions
import KeyFigures.Exchange.Failures
import KeyFigures.Exchange.Figures
import KeyFigures.Exchange.Formula
import KeyFigures.Exchange.Requests
import KeyFigures.Exchange.Tagged
import KeyFigures.Failure
import KeyFigures.Formula.Builder
import KeyFigures.Formula.Fingerprint
import KeyFigures.Formula.Parse
import KeyFigures.Formula.Term
import KeyFigures.Formula.Token
import KeyFigures.Formula.Written
import KeyFigures.Ledger.Basic
import KeyFigures.Ledger.Selection
import KeyFigures.Library.Basic
import KeyFigures.Library.Definition
import KeyFigures.Library.Settings
import KeyFigures.Library.Standard
import KeyFigures.Log.Context
import KeyFigures.Log.Journal
import KeyFigures.Log.Record
import KeyFigures.Main
import KeyFigures.Proofs.Cache.Freshness
import KeyFigures.Proofs.Cache.Operations
import KeyFigures.Proofs.Cache.Reachable
import KeyFigures.Proofs.Cache.SingleFlight
import KeyFigures.Proofs.Cache.Traced
import KeyFigures.Proofs.Decimal.Plain
import KeyFigures.Proofs.Formula.Chain
import KeyFigures.Proofs.Formula.Grammar
import KeyFigures.Proofs.Formula.Lexeme
import KeyFigures.Proofs.Formula.RoundTrip
import KeyFigures.Proofs.Text.Classes
import KeyFigures.Registry.Archive
import KeyFigures.Registry.Basic
import KeyFigures.Registry.Expansion
import KeyFigures.Registry.UserStore
import KeyFigures.Result
import KeyFigures.Service.Aggregate
import KeyFigures.Service.Basic
import KeyFigures.Service.FanOut
import KeyFigures.Service.Gate
import KeyFigures.Service.Request
import KeyFigures.Service.Run
import KeyFigures.Service.Series
import KeyFigures.Service.Slots
import KeyFigures.Service.Source
import KeyFigures.Service.Task
import KeyFigures.Text.Blank
import KeyFigures.Text.Digit
import KeyFigures.Text.LetterCase
import KeyFigures.Text.LowerCase
import KeyFigures.Text.Quoted
import KeyFigures.Text.RealNumber
import KeyFigures.Text.Visible
import KeyFigures.Text.WholeNumber
import KeyFigures.Time.Clock
import KeyFigures.Time.Moment
import KeyFigures.Time.Reading
import KeyFigures.Value.Basic
import KeyFigures.Value.Canonical
import KeyFigures.Value.Comparison
import KeyFigures.Value.Json
import KeyFigures.Value.Number
import KeyFigures.Value.Shown
import KeyFigures.Proofs.Formula.Traversal
import KeyFigures.Proofs.Registry.References
import KeyFigures.Proofs.Registry.Sharing
import KeyFigures.Proofs.Registry.Lookup
import KeyFigures.Proofs.Registry.Faults
import KeyFigures.Proofs.Registry.Resolution
import KeyFigures.Proofs.Registry.Saving
import KeyFigures.Proofs.Registry.Substitution
import KeyFigures.Proofs.Registry.Stores
import KeyFigures.Proofs.Decimal.Arithmetic
import KeyFigures.Proofs.Decimal.Agreement
import KeyFigures.Proofs.Evaluation.Agreement
import KeyFigures.Proofs.Decimal.RoundTrip
import KeyFigures.Proofs.Value.Canonical
import KeyFigures.Proofs.Decimal.NormalForm
import KeyFigures.Proofs.Formula.Identity
import KeyFigures.Proofs.Formula.Stored
import KeyFigures.Proofs.Formula.Parenthesized
import KeyFigures.Proofs.Formula.Described
import KeyFigures.Proofs.Database.Formulas
import KeyFigures.Proofs.Log.Steady
import KeyFigures.Proofs.Service.Calls
import KeyFigures.Proofs.Service.Effort
import KeyFigures.Proofs.Service.Runs
import KeyFigures.Proofs.Service.Unobservable
import KeyFigures.Proofs.Service.Requests
import KeyFigures.Proofs.Service.Accounts
import KeyFigures.Proofs.Service.GivenCache
import KeyFigures.Proofs.Service.MissingLedger
import KeyFigures.Proofs.Service.Years
import KeyFigures.Proofs.Service.Boards
import KeyFigures.Proofs.Cache.Recency
import KeyFigures.Proofs.Cache.UnderWay
import KeyFigures.Proofs.Cache.GivingUp
import KeyFigures.Proofs.Cache.Failures
import KeyFigures.Proofs.Evaluation.Warnings
import KeyFigures.Proofs.Evaluation.Unmatched
import KeyFigures.Proofs.Value.Failing
import KeyFigures.Proofs.Registry.Listing
import KeyFigures.Proofs.Log.Carried
import KeyFigures.Proofs.Service.Fetching
import KeyFigures.Proofs.Service.Lines
import KeyFigures.Proofs.Decimal.Exact
import KeyFigures.Proofs.Evaluation.Exact
import KeyFigures.Proofs.Evaluation.RowOrder
import KeyFigures.Proofs.Service.FanOut
import KeyFigures.Proofs.Service.Gathering
import KeyFigures.Proofs.Service.Group
import KeyFigures.Proofs.Evaluation.Additive
import KeyFigures.Proofs.Service.Consolidated
import KeyFigures.Proofs.Service.FirstFailure
import KeyFigures.Proofs.Formula.Scanning
import KeyFigures.Proofs.Formula.Spacing
import KeyFigures.Proofs.Formula.Refusals
import KeyFigures.Proofs.Evaluation.Ranges
import KeyFigures.Proofs.Registry.History
import KeyFigures.Proofs.Decimal.Totals
import KeyFigures.Proofs.Database.StandardView
import KeyFigures.Proofs.Database.StandardChart
import KeyFigures.Proofs.Decimal.Quantized
import KeyFigures.Proofs.Display
import KeyFigures.Proofs.Value.Writing
import KeyFigures.Proofs.Evaluation.Traced
import KeyFigures.Proofs.Value.Reordered
import KeyFigures.Proofs.Log.Blocks
import KeyFigures.Proofs.Log.Encoding
import KeyFigures.Proofs.Formula.Complaints
import KeyFigures.Proofs.Formula.Culprits
import KeyFigures.Proofs.Formula.SourceOrder
