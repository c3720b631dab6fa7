import Tabula.Value.Literal

/-!
# Columns

A column has a name in the store and a key under which queries, filters and results know it. Its
kind decides how it is declared and how its values travel (`Column.Codec`); `Column.Spec` is what a
table declaration says of it.
-/

namespace Tabula

/-- The kinds of columns. -/
inductive ColumnKind where
  | integer
  | text
  | real
  | blob
  /-- Stored as 0 and 1. -/
  | boolean
  /-- Stored as milliseconds since 1970. -/
  | date
deriving DecidableEq

/-- The type with which the store declares a kind. -/
def ColumnKind.storageType : ColumnKind → String
  | integer | boolean | date => "integer"
  | text => "text"
  | real => "real"
  | blob => "blob"

/-- What a column refers to. -/
inductive Reference where
  /-- A column of a table, both by their names in the store. -/
  | column (table name : String)
  /-- The text of a clause, as it is. -/
  | raw (clause : String)
deriving DecidableEq

namespace Reference

def sql : Reference → String
  | column table name => s!"{table}({name})"
  | raw clause => clause

/-- Whether the reference is to a column of the table. -/
def targets (table : String) : Reference → Bool
  | column t _ => t == table
  | raw _ => false

end Reference

/-- A column of a table. -/
structure Column where
  /-- The name in the store. -/
  name : String
  /-- The name that queries and results use. -/
  key : String
  kind : ColumnKind
  unique : Bool := false
  notNull : Bool := false
  /-- Whether the store fills the column in if an insert leaves it out. -/
  hasDefault : Bool := false
  /-- The stored form of the declared default. -/
  default : Option Value := none
  references : Option Reference := none
  primaryKey : Bool := false
  autoincrement : Bool := false
deriving DecidableEq

namespace Column

/-- The definition of the column inside of `CREATE TABLE`. -/
def definition (c : Column) : String :=
  c.name ++ " " ++ c.kind.storageType
    ++ (if c.unique then " unique" else "")
    ++ (if c.notNull then " not null" else "")
    ++ (match c.default with | some v => " default " ++ v.literal | none => "")
    ++ (match c.references with | some r => " references " ++ r.sql | none => "")
    ++ (if c.primaryKey then " primary key" else "")
    ++ (if c.primaryKey && c.autoincrement then " autoincrement" else "")

/-- Whether the column refers to a column of the table. -/
def targets (table : String) (c : Column) : Bool :=
  c.references.any (Reference.targets table)

end Column

end Tabula
