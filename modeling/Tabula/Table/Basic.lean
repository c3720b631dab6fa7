import Tabula.Column.Codec

/-!
# Tables

A table is a list of columns with distinct keys, and constraints over them. It has a name in the
store and a key under which a schema knows it; a table that no schema holds is known by its name.
`Table.Define` declares tables.
-/

namespace Tabula

/-- A foreign key, by names in the store. -/
structure ForeignKey where
  columns : List String
  foreignTable : String
  foreignColumns : List String
deriving DecidableEq

/-- The constraint inside of `CREATE TABLE`. -/
def ForeignKey.definition (k : ForeignKey) : String :=
  let columns := ", ".intercalate k.columns
  let foreign := ", ".intercalate k.foreignColumns
  s!"foreign key({columns}) references {k.foreignTable}({foreign})"

/-- A table. -/
structure Table where
  /-- The name that a schema and its queries use. -/
  key : String
  /-- The name in the store. -/
  name : String
  columns : List Column
  /-- The columns of a primary key of several columns, by names in the store. -/
  primaryKey : List String
  foreignKeys : List ForeignKey
  columns_ne_nil : columns ≠ []
  keys_nodup : (columns.map Column.key).Nodup
deriving DecidableEq

namespace Table

/-- The column of a key. -/
def column? (t : Table) (key : String) : Option Column :=
  t.columns.find? fun c => c.key == key

/-- The column of a key, or the failure to find it. -/
def column (t : Table) (key : String) : Except Error Column :=
  match t.column? key with
  | some c => .ok c
  | none => .error (.columnNotFound s!"{t.key}.{key}")

/-- The table under the key that a schema gives it. -/
def withKey (t : Table) (key : String) : Table :=
  { t with key := key }

/-- The statement that creates the table if the store lacks it. -/
def createStatement (t : Table) : String :=
  let primaryKey :=
    if t.primaryKey.isEmpty then []
    else ["primary key(" ++ ", ".intercalate t.primaryKey ++ ")"]
  let parts :=
    t.columns.map Column.definition ++ primaryKey ++ t.foreignKeys.map ForeignKey.definition
  s!"CREATE TABLE IF NOT EXISTS {t.name} (" ++ ", ".intercalate parts ++ ")"

end Table

end Tabula
