import RecordQuery.Audit
import RecordQuery.Bounds
import RecordQuery.Bounds.Text
import RecordQuery.Builder
import RecordQuery.Builder.Script
import RecordQuery.Cache
import RecordQuery.Data.Keyed
import RecordQuery.Data.Sort
import RecordQuery.Database
import RecordQuery.Database.Access
import RecordQuery.Database.Affinity
import RecordQuery.Database.Cell
import RecordQuery.Database.Change
import RecordQuery.Database.Condition
import RecordQuery.Database.Cost
import RecordQuery.Database.Limit
import RecordQuery.Database.Search
import RecordQuery.Database.Table
import RecordQuery.Database.Visit
import RecordQuery.Engine
import RecordQuery.Engine.Error
import RecordQuery.Engine.Plan
import RecordQuery.Entity
import RecordQuery.Entity.Document
import RecordQuery.Entity.Tag
import RecordQuery.Filter
import RecordQuery.Filter.Json
import RecordQuery.FormatError
import RecordQuery.Json
import RecordQuery.Json.Reader
import RecordQuery.Json.Record
import RecordQuery.Json.Token
import RecordQuery.Json.Writer
import RecordQuery.Locale
import RecordQuery.Number.Binary64
import RecordQuery.Number.Extended
import RecordQuery.Number.Reading
import RecordQuery.Number.Scaled
import RecordQuery.Number.Significant
import RecordQuery.Order
import RecordQuery.Predicate
import RecordQuery.Predicate.Evaluate
import RecordQuery.Predicate.Like
import RecordQuery.Predicate.Truth
import RecordQuery.Query
import RecordQuery.Row
import RecordQuery.Row.File
import RecordQuery.Settings
import RecordQuery.Sql.Condition
import RecordQuery.Sql.Dialect
import RecordQuery.Sql.Statement
import RecordQuery.Store
import RecordQuery.Store.Error
import RecordQuery.Store.Memory
import RecordQuery.Store.Relational
import RecordQuery.Text.Blank
import RecordQuery.Text.Case
import RecordQuery.Text.CaseTable
import RecordQuery.Text.Numeral
import RecordQuery.TextFilter
import RecordQuery.TextPattern
import RecordQuery.Time.Calendar
import RecordQuery.Time.Instant
import RecordQuery.Time.Reader
import RecordQuery.Time.Writer
import RecordQuery.Value
import RecordQuery.Proofs.Agreement.Binding
import RecordQuery.Proofs.Agreement.Insertions
import RecordQuery.Proofs.Agreement.Mirrors
import RecordQuery.Proofs.Agreement.Names
import RecordQuery.Proofs.Agreement.Operations
import RecordQuery.Proofs.Agreement.Queries
import RecordQuery.Proofs.Agreement.Restriction
import RecordQuery.Proofs.Agreement.Rows
import RecordQuery.Proofs.Agreement.Steps
import RecordQuery.Proofs.Agreement.Stores
import RecordQuery.Proofs.Agreement.TextFilters
import RecordQuery.Proofs.Agreement.Twins
import RecordQuery.Proofs.Agreement.Updates
import RecordQuery.Proofs.Agreement.Values
import RecordQuery.Proofs.Bounds
import RecordQuery.Proofs.Bounds.Integers
import RecordQuery.Proofs.Bounds.Text
import RecordQuery.Proofs.Bounds.Times
import RecordQuery.Proofs.Builder.Accepts
import RecordQuery.Proofs.Builder.Between
import RecordQuery.Proofs.Builder.Flags
import RecordQuery.Proofs.Builder.Groups
import RecordQuery.Proofs.Builder.Places
import RecordQuery.Proofs.Builder.Resolution
import RecordQuery.Proofs.Builder.Splitting
import RecordQuery.Proofs.Data.Except
import RecordQuery.Proofs.Data.Integer
import RecordQuery.Proofs.Data.Keyed
import RecordQuery.Proofs.Data.Sorting
import RecordQuery.Proofs.Database.Accepting
import RecordQuery.Proofs.Database.Contents
import RecordQuery.Proofs.Database.Numbering
import RecordQuery.Proofs.Database.Versions
import RecordQuery.Proofs.Database.Visiting
import RecordQuery.Proofs.Database.Writing
import RecordQuery.Proofs.Engine.AuditTrail
import RecordQuery.Proofs.Engine.Load
import RecordQuery.Proofs.Engine.Recovery
import RecordQuery.Proofs.Engine.Reload
import RecordQuery.Proofs.Engine.Save
import RecordQuery.Proofs.Engine.Stamp
import RecordQuery.Proofs.Entity.Reading
import RecordQuery.Proofs.Entity.Storage
import RecordQuery.Proofs.Entity.Versions
import RecordQuery.Proofs.Filter.Admission
import RecordQuery.Proofs.Filter.Json
import RecordQuery.Proofs.Json.Reading
import RecordQuery.Proofs.Json.Record
import RecordQuery.Proofs.Json.Token
import RecordQuery.Proofs.Locale
import RecordQuery.Proofs.Predicate.Acceptance
import RecordQuery.Proofs.Predicate.Kleene
import RecordQuery.Proofs.Predicate.Like
import RecordQuery.Proofs.Predicate.LikeForms
import RecordQuery.Proofs.Predicate.Matching
import RecordQuery.Proofs.Predicate.Meaning
import RecordQuery.Proofs.Predicate.Patterns
import RecordQuery.Proofs.Predicate.Pieces
import RecordQuery.Proofs.Predicate.Regex
import RecordQuery.Proofs.Predicate.StorageForm
import RecordQuery.Proofs.Query
import RecordQuery.Proofs.Sql.Grammar
import RecordQuery.Proofs.Sql.Independence
import RecordQuery.Proofs.Sql.Printing
import RecordQuery.Proofs.Sql.Reading
import RecordQuery.Proofs.Sql.Token
import RecordQuery.Proofs.Store.Counters
import RecordQuery.Proofs.Store.Identity
import RecordQuery.Proofs.Store.Listing
import RecordQuery.Proofs.Store.LostUpdate
import RecordQuery.Proofs.Store.Outcomes
import RecordQuery.Proofs.Store.Overlap
import RecordQuery.Proofs.Store.Projections
import RecordQuery.Proofs.Store.Rollback
import RecordQuery.Proofs.Store.Run
import RecordQuery.Proofs.Store.Selection
import RecordQuery.Proofs.Store.Staleness
import RecordQuery.Proofs.Store.Storing
import RecordQuery.Proofs.Store.Undisturbed
import RecordQuery.Proofs.Store.VersionGuard
import RecordQuery.Proofs.Text.Context
import RecordQuery.Proofs.Text.Finding
import RecordQuery.Proofs.Text.Folding
import RecordQuery.Proofs.Text.Idempotence
import RecordQuery.Proofs.Text.Numeral
import RecordQuery.Proofs.Text.Order
import RecordQuery.Proofs.Text.Pattern
import RecordQuery.Proofs.Text.Search
import RecordQuery.Proofs.Text.Structure
import RecordQuery.Proofs.Text.Words
import RecordQuery.Proofs.TextFilter
import RecordQuery.Proofs.Time.Calendar
import RecordQuery.Proofs.Time.Reading
import RecordQuery.Proofs.Time.StoredOrder
import RecordQuery.Proofs.Value
import RecordQuery.Proofs.Value.Order
