import VaultSchema.Blob.Store
import VaultSchema.Blob.Writer
import VaultSchema.Cache.Basic
import VaultSchema.Cache.Fingerprint
import VaultSchema.Cache.Sha256
import VaultSchema.Cache.Stored
import VaultSchema.Calendar.Date
import VaultSchema.Calendar.Moment
import VaultSchema.Calendar.Reading
import VaultSchema.Command.Options
import VaultSchema.Command.Report
import VaultSchema.Command.Request
import VaultSchema.Command.Run
import VaultSchema.Console.Grid
import VaultSchema.Console.Lines
import VaultSchema.Console.Markup
import VaultSchema.Console.Page
import VaultSchema.Console.Width
import VaultSchema.Definition.Checked
import VaultSchema.Definition.Lenient
import VaultSchema.Definition.Reading
import VaultSchema.Engine.Basic
import VaultSchema.Engine.Duplicates
import VaultSchema.Engine.Notes
import VaultSchema.Engine.Pass
import VaultSchema.Engine.Session
import VaultSchema.Files.Listing
import VaultSchema.Files.Path
import VaultSchema.Files.Tree
import VaultSchema.Index.Stored
import VaultSchema.Index.TagIndex
import VaultSchema.Json.Reading
import VaultSchema.Json.Writing
import VaultSchema.Main
import VaultSchema.Note.Document
import VaultSchema.Note.Folder
import VaultSchema.Note.Frontmatter
import VaultSchema.Note.Store
import VaultSchema.Note.Tags
import VaultSchema.Number.Binary64
import VaultSchema.Number.Decimal
import VaultSchema.Number.LooseReading
import VaultSchema.Pattern.Folding
import VaultSchema.Pattern.Node
import VaultSchema.Pattern.Reading
import VaultSchema.Pattern.Search
import VaultSchema.Proofs.Blob.Lasting
import VaultSchema.Proofs.Blob.Saving
import VaultSchema.Proofs.Blob.Store
import VaultSchema.Proofs.Cache.Analysis
import VaultSchema.Proofs.Cache.Decoding
import VaultSchema.Proofs.Cache.Entries
import VaultSchema.Proofs.Cache.Loading
import VaultSchema.Proofs.Cache.Partition
import VaultSchema.Proofs.Cache.Payload
import VaultSchema.Proofs.Cache.Printable
import VaultSchema.Proofs.Cache.Saving
import VaultSchema.Proofs.Cache.Stored
import VaultSchema.Proofs.Cache.Whole
import VaultSchema.Proofs.Calendar.Days
import VaultSchema.Proofs.Calendar.Instants
import VaultSchema.Proofs.Calendar.Texts
import VaultSchema.Proofs.Calendar.Timestamps
import VaultSchema.Proofs.Definition.Authored
import VaultSchema.Proofs.Definition.Checked
import VaultSchema.Proofs.Engine.Cancellation
import VaultSchema.Proofs.Engine.Changes
import VaultSchema.Proofs.Engine.Duplicates
import VaultSchema.Proofs.Engine.Events
import VaultSchema.Proofs.Engine.Exact
import VaultSchema.Proofs.Engine.Forgetting
import VaultSchema.Proofs.Engine.Hosting
import VaultSchema.Proofs.Engine.Incremental
import VaultSchema.Proofs.Engine.Keeping
import VaultSchema.Proofs.Engine.Listing
import VaultSchema.Proofs.Engine.Marking
import VaultSchema.Proofs.Engine.Moving
import VaultSchema.Proofs.Engine.Notes
import VaultSchema.Proofs.Engine.Pass
import VaultSchema.Proofs.Engine.Recovery
import VaultSchema.Proofs.Engine.Reporting
import VaultSchema.Proofs.Engine.Rescan
import VaultSchema.Proofs.Engine.Resume
import VaultSchema.Proofs.Engine.Reuse
import VaultSchema.Proofs.Engine.Run
import VaultSchema.Proofs.Engine.Sessions
import VaultSchema.Proofs.Engine.Settled
import VaultSchema.Proofs.Engine.Startup
import VaultSchema.Proofs.Engine.Upkeep
import VaultSchema.Proofs.Index.Coherence
import VaultSchema.Proofs.Index.Convergence
import VaultSchema.Proofs.Index.Current
import VaultSchema.Proofs.Index.Members
import VaultSchema.Proofs.Index.Rows
import VaultSchema.Proofs.Index.Saving
import VaultSchema.Proofs.Index.Series
import VaultSchema.Proofs.Index.Start
import VaultSchema.Proofs.Json.Number
import VaultSchema.Proofs.Json.Plain
import VaultSchema.Proofs.Json.Quoted
import VaultSchema.Proofs.Json.Reading
import VaultSchema.Proofs.Json.RoundTrip
import VaultSchema.Proofs.Json.Widths
import VaultSchema.Proofs.Note.Code
import VaultSchema.Proofs.Note.Store
import VaultSchema.Proofs.Note.Tags
import VaultSchema.Proofs.Number.Bounds
import VaultSchema.Proofs.Number.Digits
import VaultSchema.Proofs.Number.Equality
import VaultSchema.Proofs.Number.Integers
import VaultSchema.Proofs.Number.Order
import VaultSchema.Proofs.Number.Rounding
import VaultSchema.Proofs.Number.Shortest
import VaultSchema.Proofs.Outcome
import VaultSchema.Proofs.Query.Folders
import VaultSchema.Proofs.Query.Grammar
import VaultSchema.Proofs.Query.Indexes
import VaultSchema.Proofs.Query.Layout
import VaultSchema.Proofs.Query.Lookup
import VaultSchema.Proofs.Query.Parts
import VaultSchema.Proofs.Query.Reading
import VaultSchema.Proofs.Query.Selection
import VaultSchema.Proofs.Query.Union
import VaultSchema.Proofs.Report.Notifying
import VaultSchema.Proofs.Report.Outside
import VaultSchema.Proofs.Report.Series
import VaultSchema.Proofs.Report.Slices
import VaultSchema.Proofs.Report.Store
import VaultSchema.Proofs.Schema.Agreement
import VaultSchema.Proofs.Schema.Alone
import VaultSchema.Proofs.Schema.Comparison
import VaultSchema.Proofs.Schema.Conditions
import VaultSchema.Proofs.Schema.Conformance
import VaultSchema.Proofs.Schema.Constraint
import VaultSchema.Proofs.Schema.Corpus
import VaultSchema.Proofs.Schema.Faults
import VaultSchema.Proofs.Schema.Findings
import VaultSchema.Proofs.Schema.Groups
import VaultSchema.Proofs.Schema.Integers
import VaultSchema.Proofs.Schema.Loading
import VaultSchema.Proofs.Schema.Order
import VaultSchema.Proofs.Schema.Origins
import VaultSchema.Proofs.Schema.Ranges
import VaultSchema.Proofs.Schema.Reach
import VaultSchema.Proofs.Schema.References
import VaultSchema.Proofs.Schema.Sharing
import VaultSchema.Proofs.Schema.Suggestion
import VaultSchema.Proofs.Schema.Survey
import VaultSchema.Proofs.Schema.Tolerance
import VaultSchema.Proofs.Schema.Uniqueness
import VaultSchema.Proofs.Table
import VaultSchema.Proofs.Text.Order
import VaultSchema.Proofs.Text.Trim
import VaultSchema.Proofs.Value.Order
import VaultSchema.Proofs.Value.Tame
import VaultSchema.Query.Basic
import VaultSchema.Query.Reading
import VaultSchema.Query.Selection
import VaultSchema.Query.Token
import VaultSchema.Report.ViolationStore
import VaultSchema.Schema.Constraint
import VaultSchema.Schema.Field
import VaultSchema.Schema.FieldType
import VaultSchema.Schema.File
import VaultSchema.Schema.Inference
import VaultSchema.Schema.Matching
import VaultSchema.Schema.Operator
import VaultSchema.Schema.Registry
import VaultSchema.Schema.SchemaSet
import VaultSchema.Schema.Uniqueness
import VaultSchema.Schema.Validation
import VaultSchema.Schema.Violation
import VaultSchema.Settings.Basic
import VaultSchema.Table
import VaultSchema.Text.Basic
import VaultSchema.Text.Blank
import VaultSchema.Text.Case
import VaultSchema.Text.Digit
import VaultSchema.Text.Printable
import VaultSchema.Text.Ranges
import VaultSchema.Text.Word
import VaultSchema.Value.Basic
import VaultSchema.Value.Conversion
import VaultSchema.Value.FoldedKeys
import VaultSchema.Value.Spelling
import VaultSchema.Vault.Notes
import VaultSchema.Vault.State
import VaultSchema.Yaml.Cursor
import VaultSchema.Yaml.Dialect
import VaultSchema.Yaml.Lexer
import VaultSchema.Yaml.Node
import VaultSchema.Yaml.Reading
import VaultSchema.Yaml.ScalarText
import VaultSchema.Yaml.Tag
import VaultSchema.Yaml.Token
import VaultSchema.Yaml.Writing
