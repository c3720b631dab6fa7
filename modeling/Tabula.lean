import Tabula.Database
import Tabula.Config.Reader
import Tabula.Session.Script
import Tabula.Table.Define
import Tabula.Proofs.Filter.Leaves
import Tabula.Proofs.Select.Placeholders
import Tabula.Proofs.Embedding.Limits
import Tabula.Proofs.Embedding.Plain
import Tabula.Proofs.Schema.Lookup
import Tabula.Proofs.Filter.Grammar
import Tabula.Proofs.Filter.Meaning
import Tabula.Proofs.Schema.Declared
import Tabula.Proofs.Schema.Pairing
import Tabula.Proofs.Schema.Assembled
import Tabula.Proofs.Column.Embedded
import Tabula.Proofs.Embedding.Decode
import Tabula.Proofs.Schema.Relations
import Tabula.Proofs.Embedding.Correlation
import Tabula.Proofs.Embedding.Faults
import Tabula.Proofs.Select.Mapping
import Tabula.Proofs.Transaction.Run
import Tabula.Proofs.Transaction.Store
import Tabula.Proofs.Transaction.Program
import Tabula.Proofs.Transaction.Replay
import Tabula.Proofs.Transaction.Atomic
import Tabula.Proofs.Transaction.Undone
import Tabula.Proofs.Transaction.Protocol
import Tabula.Proofs.Select.Fields
import Tabula.Proofs.Select.Joins
import Tabula.Proofs.Select.Aliases
import Tabula.Proofs.Select.Checks
import Tabula.Proofs.Scope.Sql
import Tabula.Proofs.Scope.Statement
import Tabula.Proofs.Scope.Captured
import Tabula.Proofs.Calendar.Date
import Tabula.Proofs.Calendar.Instant
import Tabula.Proofs.Column.RoundTrip
import Tabula.Proofs.Column.Agreement
import Tabula.Proofs.Embedding.Guaranteed
import Tabula.Proofs.Schema.Merge
import Tabula.Proofs.Schema.Reordered
import Tabula.Proofs.Query.Configured
import Tabula.Proofs.Query.Executed
import Tabula.Proofs.Filter.Mentions
import Tabula.Proofs.Filter.Refused
import Tabula.Proofs.Filter.Wrapped
import Tabula.Proofs.Select.Keys
import Tabula.Proofs.Embedding.Namesakes
import Tabula.Proofs.Statement.Spelling
import Tabula.Proofs.Write.Insert
import Tabula.Proofs.Write.Update
import Tabula.Proofs.Table.Creation
import Tabula.Proofs.Column.Integers
import Tabula.Proofs.Embedding.Properties
import Tabula.Proofs.Column.Hexadecimal
import Tabula.Proofs.Value.Literal
import Tabula.Proofs.Fragment.Expression
import Tabula.Proofs.Select.Lookups
import Tabula.Proofs.Statement.Quoted
