import Schemata.Cleaning
import Schemata.Command.Basic
import Schemata.Command.Option
import Schemata.Command.Reading
import Schemata.Command.Run
import Schemata.Command.SchemaFile
import Schemata.Comment
import Schemata.Ddl.Constraints
import Schemata.Ddl.Document
import Schemata.Ddl.Encoding
import Schemata.Ddl.Statements
import Schemata.Decode.Checked
import Schemata.Decode.Schema
import Schemata.Edge.Basic
import Schemata.Edge.Dangling
import Schemata.Edge.Encode
import Schemata.Edit.Basic
import Schemata.Edit.Enums
import Schemata.Edit.Label
import Schemata.Edit.Refusal
import Schemata.Edit.Tables
import Schemata.History.Basic
import Schemata.History.Opening
import Schemata.History.Snapshot
import Schemata.History.Stored
import Schemata.Json.Reader
import Schemata.Json.Value
import Schemata.Json.Writer
import Schemata.Log.Configuration
import Schemata.Log.Context
import Schemata.Log.Event
import Schemata.Log.Line
import Schemata.Log.Moment
import Schemata.Main
import Schemata.Name
import Schemata.Nesting
import Schemata.Number.Arithmetic
import Schemata.Number.Binary64
import Schemata.Number.Reading
import Schemata.Number.Rounding
import Schemata.Number.Shortest
import Schemata.OrderedMap
import Schemata.Quote
import Schemata.Schema.Basic
import Schemata.Schema.Encode
import Schemata.Schema.Outline
import Schemata.Session.Basic
import Schemata.Session.Operation
import Schemata.Settings
import Schemata.Statement.Basic
import Schemata.Statement.Build
import Schemata.Statement.Clause
import Schemata.Statement.Cursor
import Schemata.Statement.Fault
import Schemata.Statement.Reader
import Schemata.Store.Basic
import Schemata.Store.Encode
import Schemata.Store.Health
import Schemata.Store.Loading
import Schemata.Store.Saving
import Schemata.Text.AlnumTable
import Schemata.Text.Blank
import Schemata.Text.Case
import Schemata.Text.CaseTable
import Schemata.Text.Class
import Schemata.Text.DigitTable
import Schemata.Text.Display
import Schemata.Text.Half
import Schemata.Text.PrintableTable
import Schemata.Text.Search
import Schemata.Token.Basic
import Schemata.Token.Scanner
import Schemata.TypeText
import Schemata.Yaml.BlockScalar
import Schemata.Yaml.Cursor
import Schemata.Yaml.Piece
import Schemata.Yaml.PlainScalar
import Schemata.Yaml.Problem
import Schemata.Yaml.QuotedScalar
import Schemata.Yaml.Reader
import Schemata.Yaml.Scalar
import Schemata.Yaml.Timestamp
import Schemata.Yaml.Tree
import Schemata.Yaml.Value
import Schemata.Yaml.Writer
import Schemata.Yaml.WrittenScalar
import Schemata.Proofs.Actions
import Schemata.Proofs.Branch
import Schemata.Proofs.Building
import Schemata.Proofs.Canonical
import Schemata.Proofs.Cleaned
import Schemata.Proofs.Columns
import Schemata.Proofs.Cutting
import Schemata.Proofs.Documents
import Schemata.Proofs.Encoding
import Schemata.Proofs.Folding
import Schemata.Proofs.Formats
import Schemata.Proofs.Generated
import Schemata.Proofs.Levels
import Schemata.Proofs.Maps
import Schemata.Proofs.Orders
import Schemata.Proofs.Parsed
import Schemata.Proofs.ParsedSchemas
import Schemata.Proofs.ParsedStatements
import Schemata.Proofs.Reading
import Schemata.Proofs.Rearranging
import Schemata.Proofs.Rebuilding
import Schemata.Proofs.Reimporting
import Schemata.Proofs.Rereading
import Schemata.Proofs.Restoring
import Schemata.Proofs.RoundTrip
import Schemata.Proofs.Scanning
import Schemata.Proofs.Seams
import Schemata.Proofs.Sessions
import Schemata.Proofs.Snapshots
import Schemata.Proofs.Soundness
import Schemata.Proofs.Statements
import Schemata.Proofs.Taken
import Schemata.Proofs.Written
import Schemata.Proofs.NumberText
import Schemata.Proofs.Reapplying
import Schemata.Proofs.JsonText
import Schemata.Proofs.SchemaText
import Schemata.Proofs.StoredHistory
import Schemata.Proofs.NewestEntries
import Schemata.Proofs.Reloading
import Schemata.Proofs.Stripped
import Schemata.Proofs.StrippedSchemas
import Schemata.Proofs.Projection
import Schemata.Proofs.RestoredHistory
import Schemata.Proofs.SavedModel
import Schemata.Proofs.ColumnIdentity
import Schemata.Proofs.Coverage
import Schemata.Proofs.Overrides
import Schemata.Proofs.SchemaFiles
import Schemata.Proofs.Inspecting
import Schemata.Proofs.UpperCase
import Schemata.Proofs.Confined
import Schemata.Proofs.Quoting
import Schemata.Proofs.Spacing
import Schemata.Proofs.EdgeIds
import Schemata.Proofs.Refolding
import Schemata.Proofs.Flags
import Schemata.Proofs.Redefining
import Schemata.Proofs.Indexes
import Schemata.Proofs.Defaults
import Schemata.Proofs.OwnEnums
import Schemata.Proofs.EntryOrder
import Schemata.Proofs.Squeezing
import Schemata.Proofs.Tightening
import Schemata.Proofs.TypeForms
import Schemata.Proofs.Grammar
import Schemata.Proofs.Clauses
import Schemata.Proofs.ClauseOrder
import Schemata.Proofs.ReferenceTexts
import Schemata.Proofs.Resolving
import Schemata.Proofs.Diagnoses
import Schemata.Proofs.Importing
import Schemata.Proofs.EnumEdits
import Schemata.Proofs.SaveOutcomes
import Schemata.Proofs.Generations
import Schemata.Proofs.StoreSize
import Schemata.Proofs.Repairing
import Schemata.Proofs.Joining
import Schemata.Proofs.CommentFree
import Schemata.Proofs.Counting
import Schemata.Proofs.Matching
import Schemata.Proofs.Semicolons
