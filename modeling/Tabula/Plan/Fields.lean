import Tabula.Table.Basic

/-!
# The fields of a statement

A statement knows fields by keys: a select by `<table>.<column>` and `<alias>.<column>`, a
statement that writes by the bare column. In a select a key without a dot is a column of the base
table.
-/

namespace Tabula

/-- A column as a statement sees it. -/
structure Field where
  /-- The SQL that reads the column. -/
  sql : String
  column : Column
deriving DecidableEq

/-- The fields that a statement knows. -/
structure Fields where
  /-- The key of the table whose columns need no table. -/
  base : Option String
  /-- The fields by keys; the first of a key counts. -/
  entries : Keyed Field
deriving DecidableEq

namespace Fields

/-- The columns of a table under `<scope>.<column>`, read through the name `sqlName`. -/
def ofTable (scope sqlName : String) (t : Table) : Keyed Field :=
  t.columns.map fun c => (s!"{scope}.{c.key}", ⟨s!"{sqlName}.{c.name}", c⟩)

/-- Adds the columns of a table. They hide fields of the same keys. -/
def add (f : Fields) (scope sqlName : String) (t : Table) : Fields :=
  { f with entries := ofTable scope sqlName t ++ f.entries }

/-- What a select from a table knows. -/
def forSelect (t : Table) : Fields :=
  ⟨some t.key, ofTable t.key t.name t⟩

/-- What a statement that writes a table knows. -/
def forWrite (t : Table) : Fields :=
  ⟨none, t.columns.map fun c => (c.key, ⟨c.name, c⟩)⟩

/-- The field of a key. -/
def resolve? (f : Fields) (key : String) : Option Field :=
  match f.entries.get? key with
  | some field => some field
  | none =>
    match f.base with
    | some base => if '.' ∈ key.toList then none else f.entries.get? s!"{base}.{key}"
    | none => none

/-- The field of a key, or the failure to find it. -/
def resolve (f : Fields) (key : String) : Except Error Field :=
  match f.resolve? key with
  | some field => .ok field
  | none => .error (.columnNotFound key)

end Fields

end Tabula
