import Tabula.Plan.Fields
import Tabula.Result.Row
import Tabula.Result.Embedded
import Tabula.Statement.Shape

/-!
# From rows to results

A mapper makes the rows of a statement into JSON. Rows of a select get the shape that was asked
for, with included rows behind it; rows that a write returns become objects of their columns.
-/

namespace Tabula

/-- What the rows of a select become. -/
structure SelectMapper where
  schema : Schema
  /-- The key of the table selected from. -/
  table : String
  fields : Fields
  shape : Shape
  inclusion : Inclusion

namespace SelectMapper

/-- The value of a column that has to be in the row. -/
def cell (row : Row) (column : String) : Except Error Value :=
  match row.get? column with
  | some v => .ok v
  | none => .error (.mapping (.missingColumn column))

mutual

/-- What stands under a key of the result. -/
def node (fields : Fields) (row : Row) : ShapeNode → Except Error Json
  | .field key => do
    let v ← cell row key
    (← fields.resolve key).column.decode v
  | .raw expression => Value.toJson <$> cell row expression
  | .nested entries => Json.obj <$> nodes fields row entries

def nodes (fields : Fields) (row : Row) :
    List (String × ShapeNode) → Except Error (List (String × Json))
  | [] => .ok []
  | (key, n) :: rest => do
    let first ← node fields row n
    return (key, first) :: (← nodes fields row rest)

end

/-- The result of a row: its shape, then what is included. A relation that shares its name with a
key of the shape takes the place of that key. -/
def mapRow (m : SelectMapper) (row : Row) : Except Error Json := do
  let shaped ← nodes m.fields row m.shape
  let included ← m.inclusion.relations.mapM fun (name, inner) => do
    let r ← m.schema.relation m.table name
    let payload := ((row.get? name).getD .null).toJson
    return (name, ← r.decode m.schema inner payload)
  return .obj (Keyed.putAll shaped included)

end SelectMapper

/-- How the rows of a statement become results. -/
inductive Mapper where
  | select (m : SelectMapper)
  | returning (table : Table)

namespace Mapper

/-- The result of a returned row: each column by its key, others as they are. -/
def returned (table : Table) (row : Row) : Except Error Json := do
  let members ← row.cells.mapM fun (key, v) =>
    match table.column? key with
    | some c => return (key, ← c.decode v)
    | none => return (key, v.toJson)
  return .obj (Keyed.putAll [] members)

def mapRow : Mapper → Row → Except Error Json
  | select m, row => m.mapRow row
  | returning table, row => returned table row

def mapRows (m : Mapper) (rows : List Row) : Except Error (List Json) :=
  rows.mapM m.mapRow

end Mapper

end Tabula
