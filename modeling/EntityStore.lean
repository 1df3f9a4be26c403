import EntityStore.Assoc
import EntityStore.CommandLine.Arguments
import EntityStore.CommandLine.Run
import EntityStore.Entity.Basic
import EntityStore.Entity.Id
import EntityStore.Entity.Record
import EntityStore.Entity.Validation
import EntityStore.Entity.Value
import EntityStore.Error
import EntityStore.Files.Path
import EntityStore.Files.Tree
import EntityStore.Ini.Reader
import EntityStore.Json.Basic
import EntityStore.Json.Number
import EntityStore.Json.Printer
import EntityStore.Json.Reader
import EntityStore.Json5.Reader
import EntityStore.Json5.Token
import EntityStore.Main
import EntityStore.Number.Binary64
import EntityStore.Number.Decimal
import EntityStore.Number.Numeral
import EntityStore.Proofs.Assoc
import EntityStore.Proofs.CommandLine.Save
import EntityStore.Proofs.Distinct
import EntityStore.Proofs.Entity.Changes
import EntityStore.Proofs.Entity.Clock
import EntityStore.Proofs.Entity.Construct
import EntityStore.Proofs.Entity.Diagnostics
import EntityStore.Proofs.Entity.Id
import EntityStore.Proofs.Entity.Instant
import EntityStore.Proofs.Entity.Invariant
import EntityStore.Proofs.Entity.Normal
import EntityStore.Proofs.Entity.Options
import EntityStore.Proofs.Entity.Origin
import EntityStore.Proofs.Entity.Record
import EntityStore.Proofs.Entity.RoundTrip
import EntityStore.Proofs.Entity.Same
import EntityStore.Proofs.Entity.Uuid
import EntityStore.Proofs.Entity.Value
import EntityStore.Proofs.Except
import EntityStore.Proofs.Files.Bytes
import EntityStore.Proofs.Files.Opening
import EntityStore.Proofs.Files.Path
import EntityStore.Proofs.Files.Proper
import EntityStore.Proofs.Files.Tree
import EntityStore.Proofs.Json.Basic
import EntityStore.Proofs.Json.Number
import EntityStore.Proofs.Json.Reader
import EntityStore.Proofs.Json.Reread
import EntityStore.Proofs.Json.RoundTrip
import EntityStore.Proofs.Number.Digits
import EntityStore.Proofs.Number.Grammar
import EntityStore.Proofs.Number.Limit
import EntityStore.Proofs.Number.Nearest
import EntityStore.Proofs.Query.Absence
import EntityStore.Proofs.Query.Clauses
import EntityStore.Proofs.Query.Comparison
import EntityStore.Proofs.Query.Condition
import EntityStore.Proofs.Query.Cuts
import EntityStore.Proofs.Query.Faults
import EntityStore.Proofs.Query.Grammar
import EntityStore.Proofs.Query.Integer
import EntityStore.Proofs.Query.KeywordPositions
import EntityStore.Proofs.Query.Lexer
import EntityStore.Proofs.Query.Names
import EntityStore.Proofs.Query.Parting
import EntityStore.Proofs.Query.Phrase
import EntityStore.Proofs.Query.Positions
import EntityStore.Proofs.Query.Rendering
import EntityStore.Proofs.Query.Result
import EntityStore.Proofs.Query.Tokens
import EntityStore.Proofs.Relationship
import EntityStore.Proofs.Schema.Suggestion
import EntityStore.Proofs.Settings.Layers
import EntityStore.Proofs.Settings.Retyped
import EntityStore.Proofs.Settings.RoundTrip
import EntityStore.Proofs.Settings.Sources
import EntityStore.Proofs.Store.Atomic
import EntityStore.Proofs.Store.Columns
import EntityStore.Proofs.Store.History
import EntityStore.Proofs.Store.Interrupted
import EntityStore.Proofs.Store.Lookup
import EntityStore.Proofs.Store.Places
import EntityStore.Proofs.Store.Projection
import EntityStore.Proofs.Store.Proper
import EntityStore.Proofs.Store.Query
import EntityStore.Proofs.Store.Readable
import EntityStore.Proofs.Store.Save
import EntityStore.Proofs.Store.Scan
import EntityStore.Proofs.Store.Search
import EntityStore.Proofs.Store.Source
import EntityStore.Proofs.Store.Spared
import EntityStore.Proofs.Store.Stopped
import EntityStore.Proofs.Store.Strict
import EntityStore.Proofs.Text.Case
import EntityStore.Proofs.Text.Pieces
import EntityStore.Proofs.Text.Utf8
import EntityStore.Proofs.Time.Calendar
import EntityStore.Proofs.Time.Grammar
import EntityStore.Proofs.Time.Order
import EntityStore.Proofs.Time.RoundTrip
import EntityStore.Proofs.Toml.String
import EntityStore.Query.Basic
import EntityStore.Query.Condition
import EntityStore.Query.Eval
import EntityStore.Query.Parser
import EntityStore.Query.Result
import EntityStore.Query.SyntaxError
import EntityStore.Query.Token
import EntityStore.Relationship
import EntityStore.Ron.Reader
import EntityStore.Ron.Token
import EntityStore.Schema.Attribute
import EntityStore.Schema.Enumeration
import EntityStore.Schema.Kind
import EntityStore.Schema.Suggestion
import EntityStore.Settings.Basic
import EntityStore.Settings.Environment
import EntityStore.Settings.FileFormat
import EntityStore.Settings.Layer
import EntityStore.Settings.Load
import EntityStore.Store.Basic
import EntityStore.Store.Lookup
import EntityStore.Store.Query
import EntityStore.Store.Save
import EntityStore.Text.Alphanumeric
import EntityStore.Text.Blank
import EntityStore.Text.Case
import EntityStore.Text.CodePoint
import EntityStore.Text.Hexadecimal
import EntityStore.Text.Slice
import EntityStore.Text.Split
import EntityStore.Text.Visible
import EntityStore.Time.Calendar
import EntityStore.Time.Span
import EntityStore.Time.Timestamp
import EntityStore.Toml.Printer
import EntityStore.Toml.Reader
import EntityStore.Toml.Scalar
import EntityStore.Toml.Table
import EntityStore.Yaml.Node
import EntityStore.Yaml.Scalar
import EntityStore.Yaml.Scanner
import EntityStore.Yaml.Token
