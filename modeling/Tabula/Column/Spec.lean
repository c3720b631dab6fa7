import Tabula.Column.Codec

/-!
# Declaring columns

A specification starts from a kind and a name in the store, and each setting replaces what was set
before. `ColumnSpec.build` makes the column under its key.
-/

namespace Tabula

/-- What a declaration says of a column. -/
structure ColumnSpec where
  kind : ColumnKind
  name : String
  unique : Bool := false
  notNull : Bool := false
  hasDefault : Bool := false
  default : Option Json := none
  references : Option Reference := none
  primaryKey : Bool := false
  autoincrement : Bool := false

namespace ColumnSpec

/-- A column without constraints. -/
def ofKind (kind : ColumnKind) (name : String) : ColumnSpec where
  kind := kind
  name := name

def setUnique (s : ColumnSpec) : ColumnSpec :=
  { s with unique := true }

def setNotNull (s : ColumnSpec) : ColumnSpec :=
  { s with notNull := true }

/-- A default, given as a caller gives values. -/
def setDefault (s : ColumnSpec) (value : Json) : ColumnSpec :=
  { s with hasDefault := true, default := some value }

def setReferences (s : ColumnSpec) (reference : Reference) : ColumnSpec :=
  { s with references := some reference }

/-- The primary key of a table is its row number, which is never null and which the store fills
in. -/
def setPrimaryKey (s : ColumnSpec) : ColumnSpec :=
  { s with primaryKey := true, notNull := true, hasDefault := true }

def setAutoincrement (s : ColumnSpec) : ColumnSpec :=
  { s with autoincrement := true }

/-- The column under its key. It needs a name, only a primary key counts up, and the default has
to fit the kind. -/
def build (s : ColumnSpec) (key : String) : Except Error Column := do
  if s.name.isEmpty then throw (.configuration (.emptyColumnName key))
  if s.autoincrement && !s.primaryKey then
    throw (.configuration (.autoincrementWithoutPrimaryKey s.name))
  let column : Column := {
    name := s.name
    key := key
    kind := s.kind
    unique := s.unique
    notNull := s.notNull
    hasDefault := s.hasDefault
    references := s.references
    primaryKey := s.primaryKey
    autoincrement := s.autoincrement }
  return { column with default := ← s.default.mapM column.encode }

/-- The built column has the key that was asked for. -/
theorem key_of_build {s : ColumnSpec} {key : String} {c : Column} (h : s.build key = .ok c) :
    c.key = key := by
  simp only [build, bind, Except.bind, pure, Except.pure, throw, throwThe,
    MonadExceptOf.throw] at h
  repeat' split at h
  all_goals first | cases h; rfl | cases h

end ColumnSpec

end Tabula
