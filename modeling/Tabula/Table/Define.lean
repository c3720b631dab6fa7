import Tabula.Table.Basic
import Tabula.Column.Spec

/-!
# Declaring tables

A table is declared by a list of steps: columns, then constraints over the columns declared so
far. The first step that cannot be taken is the failure of the declaration; the last primary key
counts.
-/

namespace Tabula

/-- A step of a table's declaration. Columns go by their keys. -/
inductive TableStep where
  | column (key : String) (spec : ColumnSpec)
  | primaryKey (columns : List String)
  | foreignKey (columns : List String) (table : Table) (references : List String)

/-- A table under declaration, which may have no columns yet. -/
structure TableDraft where
  name : String
  columns : List Column
  primaryKey : List String
  foreignKeys : List ForeignKey
  keys_nodup : (columns.map Column.key).Nodup

namespace TableDraft

/-- Nothing declared yet. -/
def start (name : String) : TableDraft :=
  ⟨name, [], [], [], List.nodup_nil⟩

/-- The column of a key. -/
def column? (d : TableDraft) (key : String) : Option Column :=
  d.columns.find? fun c => c.key == key

/-- The names in the store of columns that a constraint lists. The list may not be empty. -/
def names (d : TableDraft) (kind : ConstraintKind) (keys : List String) :
    Except Error (List String) :=
  if keys.isEmpty then .error (.configuration (.emptyConstraint kind d.name))
  else keys.mapM fun key =>
    match d.column? key with
    | some c => .ok c.name
    | none => .error (.configuration (.undeclaredColumn kind key d.name))

/-- Adds a column with a new key. -/
def add (d : TableDraft) (c : Column) (h : c.key ∉ d.columns.map Column.key) : TableDraft where
  name := d.name
  columns := d.columns ++ [c]
  primaryKey := d.primaryKey
  foreignKeys := d.foreignKeys
  keys_nodup := by
    rw [List.map_append, List.nodup_append]
    refine ⟨d.keys_nodup, by simp, fun k hk l hl => ?_⟩
    rintro rfl
    simp only [List.map_cons, List.map_nil, List.mem_singleton] at hl
    exact h (hl ▸ hk)

/-- Takes one step. -/
def step (d : TableDraft) : TableStep → Except Error TableDraft
  | .column key spec =>
    if h : key ∈ d.columns.map Column.key then
      .error (.configuration (.columnTwice key d.name))
    else match hc : spec.build key with
      | .ok c => .ok (d.add c (ColumnSpec.key_of_build hc ▸ h))
      | .error e => .error e
  | .primaryKey columns => do
    return { d with primaryKey := ← d.names .primaryKey columns }
  | .foreignKey columns table references => do
    let names ← d.names .foreignKey columns
    if columns.length ≠ references.length then
      throw (.configuration (.foreignKeyLength d.name columns.length references.length))
    let foreign ← references.mapM fun key => Column.name <$> table.column key
    return { d with foreignKeys := d.foreignKeys ++ [⟨names, table.name, foreign⟩] }

/-- The declared table. -/
def finish (d : TableDraft) : Except Error Table :=
  if h : d.columns = [] then .error (.configuration (.noColumns d.name))
  else .ok ⟨d.name, d.name, d.columns, d.primaryKey, d.foreignKeys, h, d.keys_nodup⟩

end TableDraft

/-- The table that steps declare. -/
def Table.define (name : String) (steps : List TableStep) : Except Error Table := do
  (← steps.foldlM TableDraft.step (.start name)).finish

end Tabula
