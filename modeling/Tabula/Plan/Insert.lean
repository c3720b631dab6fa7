import Tabula.Plan.Compiled
import Tabula.Schema.Basic
import Tabula.Statement.Query

/-!
# Compiling inserts

The keys of the first row are the columns of the insert, and every other row has to have the same
keys, in any order. A single row without keys inserts the defaults of the table.
-/

namespace Tabula

/-- An insert that has found its columns, with its rows in stored form. -/
structure InsertPlan where
  table : Table
  /-- None if the row is all defaults. -/
  columns : List Column
  /-- The values of each row, in the order of the columns. -/
  rows : List (List Value)
  returning : Option (List Column)

namespace InsertPlan

/-- The values of a row under the keys of the first. -/
def row (table : Table) (keys : List String) (columns : List Column) (index : Nat)
    (o : Json.Object) : Except Error (List Value) :=
  if o.members.length ≠ keys.length ∨ ¬ keys.all o.members.has then
    .error (.invalidStatement (.keySetDiffers table.key index))
  else (keys.zip columns).mapM fun (key, c) => c.encode ((o.members.get? key).getD .null)

/-- The rows from the one of number `index` on. -/
def rowsFrom (table : Table) (keys : List String) (columns : List Column) :
    Nat → List Json.Object → Except Error (List (List Value))
  | _, [] => .ok []
  | index, o :: rest => do
    let first ← row table keys columns index o
    return first :: (← rowsFrom table keys columns (index + 1) rest)

/-- The plan of an insert into the table of a key. -/
def ofInsert (s : Schema) (key : String) (q : Insert) : Except Error InsertPlan := do
  let table ← s.table key
  match (q.values.map Values.rows).getD [] with
  | [] => throw (.missingValues table.key)
  | first :: others =>
    let keys := first.members.keys
    let columns ← keys.mapM table.column
    let rows ←
      if columns.isEmpty then
        if others.isEmpty then pure []
        else throw (.invalidStatement (.mixedRows table.key))
      else rowsFrom table keys columns 0 (first :: others)
    let returning ← q.returning.mapM (Returning.plan table)
    return ⟨table, columns, rows, returning⟩

/-- The SQL of a plan. -/
def render (p : InsertPlan) : Fragment :=
  let into := Fragment.raw s!"insert into {p.table.name}"
  let written :=
    if p.columns.isEmpty then into.appendRaw "default values"
    else
      let names := ", ".intercalate (p.columns.map Column.name)
      (into.appendRaw s!"({names}) values").append (.join ", " (p.rows.map .parameters))
  written.appendReturning p.returning

end InsertPlan

/-- Compiles an insert into the table of a key. -/
def Insert.compile (s : Schema) (key : String) (q : Insert) : Except Error Compiled := do
  let p ← InsertPlan.ofInsert s key q
  return ⟨p.render, .returning p.table⟩

end Tabula
