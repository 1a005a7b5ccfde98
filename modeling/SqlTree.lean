import SqlTree.Clause
import SqlTree.Decimal.Reading
import SqlTree.Decimal.Shortest
import SqlTree.Decimal.Text
import SqlTree.Dialect
import SqlTree.Dialect.Engine
import SqlTree.Dialect.Profile
import SqlTree.Dialect.Profile.Document
import SqlTree.Error
import SqlTree.Form.Field
import SqlTree.Form.Name
import SqlTree.Form.Node
import SqlTree.Form.Node.Reader
import SqlTree.Form.Profile
import SqlTree.Form.Record
import SqlTree.Form.Value
import SqlTree.Instant.Basic
import SqlTree.Instant.Reader
import SqlTree.Json.Basic
import SqlTree.Json.Printer
import SqlTree.Json.Reader
import SqlTree.Json.Refusal
import SqlTree.Kind
import SqlTree.Name
import SqlTree.Node
import SqlTree.Node.Build
import SqlTree.Node.Equality
import SqlTree.Pass.Basic
import SqlTree.Pass.Rule
import SqlTree.Pass.Schema
import SqlTree.Pass.Trace
import SqlTree.Proofs.Building.Appending
import SqlTree.Proofs.Building.Built
import SqlTree.Proofs.Building.Calls
import SqlTree.Proofs.Building.Completeness
import SqlTree.Proofs.Building.Dotted
import SqlTree.Proofs.Building.Held
import SqlTree.Proofs.Building.Interleaving
import SqlTree.Proofs.Building.Nodes
import SqlTree.Proofs.Building.Slots
import SqlTree.Proofs.Building.WellFormed
import SqlTree.Proofs.Dialects.Agreement
import SqlTree.Proofs.Dialects.Profiles
import SqlTree.Proofs.Editing.Edit
import SqlTree.Proofs.Editing.Layouts
import SqlTree.Proofs.Editing.Parts
import SqlTree.Proofs.Editing.Qualify
import SqlTree.Proofs.Emission.Acceptance
import SqlTree.Proofs.Emission.Alignment
import SqlTree.Proofs.Emission.Emitter
import SqlTree.Proofs.Emission.Inlined
import SqlTree.Proofs.Emission.Layout
import SqlTree.Proofs.Emission.Leaves
import SqlTree.Proofs.Emission.MapValues
import SqlTree.Proofs.Emission.Mapping
import SqlTree.Proofs.Emission.Parts
import SqlTree.Proofs.Emission.Payload
import SqlTree.Proofs.Emission.Rendering
import SqlTree.Proofs.Emission.Violations
import SqlTree.Proofs.Emission.Walk
import SqlTree.Proofs.Form.Exact
import SqlTree.Proofs.Form.Nodes
import SqlTree.Proofs.Form.Records
import SqlTree.Proofs.Form.RoundTrip
import SqlTree.Proofs.Form.Trees
import SqlTree.Proofs.Form.Values
import SqlTree.Proofs.Instant.Calendar
import SqlTree.Proofs.Instant.Reading
import SqlTree.Proofs.Json.Documents
import SqlTree.Proofs.Json.Tokens
import SqlTree.Proofs.Lexical.Delimiting
import SqlTree.Proofs.Lexical.Digits
import SqlTree.Proofs.Lexical.Grammar
import SqlTree.Proofs.Lexical.Integrity
import SqlTree.Proofs.Lexical.Layout
import SqlTree.Proofs.Lexical.Literal
import SqlTree.Proofs.Lexical.Plain
import SqlTree.Proofs.Lexical.Reading
import SqlTree.Proofs.Lexical.Scanner
import SqlTree.Proofs.Lists
import SqlTree.Proofs.Nesting.Clauses
import SqlTree.Proofs.Nesting.Delimited
import SqlTree.Proofs.Nesting.Omission
import SqlTree.Proofs.Nesting.Phrases
import SqlTree.Proofs.Nesting.Places
import SqlTree.Proofs.Nesting.Spacing
import SqlTree.Proofs.Passes.Rebuilt
import SqlTree.Proofs.Passes.Rules
import SqlTree.Proofs.Passes.Runs
import SqlTree.Proofs.Passes.Sharing
import SqlTree.Proofs.Passes.Slots
import SqlTree.Proofs.Passes.Steps
import SqlTree.Proofs.Passes.Visits
import SqlTree.Proofs.Predicate.Conditions
import SqlTree.Proofs.Predicate.Expr
import SqlTree.Proofs.Predicate.Level
import SqlTree.Proofs.Predicate.Merging
import SqlTree.Proofs.Predicate.Operand
import SqlTree.Proofs.Predicate.Queries
import SqlTree.Proofs.Predicate.Reader
import SqlTree.Proofs.Predicate.Spelling
import SqlTree.Proofs.Qualifying.Emission
import SqlTree.Proofs.Qualifying.Names
import SqlTree.Proofs.Qualifying.Places
import SqlTree.Proofs.Qualifying.Settled
import SqlTree.Sql.Compile
import SqlTree.Sql.Operand
import SqlTree.Sql.Piece
import SqlTree.Statement
import SqlTree.Text
import SqlTree.Toml.Basic
import SqlTree.Toml.Quoted
import SqlTree.Toml.Reader
import SqlTree.Toml.Scalar
import SqlTree.Uuid
import SqlTree.Value
import SqlTree.Vocabulary
