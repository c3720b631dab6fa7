import Tabula.Plan.Compiled
import Tabula.Plan.Embedding
import Tabula.Statement.Query

/-!
# Compiling selects

`SelectPlan.ofSelect` resolves the clauses of a select against a schema: joins first, which add
fields and grow the default shape, then what is selected and included, then the conditions. The
first clause at fault decides the error. `SelectPlan.render` writes the plan and cannot fail.
-/

namespace Tabula

/-- The default shape of a table: every column under its key. -/
def Shape.ofTable (scope : String) (t : Table) : Shape :=
  t.columns.map fun c => (c.key, .field s!"{scope}.{c.key}")

/-- A join that has found its table and columns. -/
structure JoinPlan where
  kind : JoinKind
  table : Table
  /-- The alias. -/
  label : String
  column : Column
  operator : Operator
  /-- The field that the column is compared with. -/
  field : Field

def JoinPlan.render (j : JoinPlan) : Fragment :=
  let label := Text.identifier j.label
  let condition := s!"{label}.{j.column.name} {j.operator.sql} {j.field.sql}"
  .raw s!"{j.kind.sql} {j.table.name} as {label} on {condition}"

/-- What joins make of the fields and the default shape of the base table. -/
structure SelectScope where
  fields : Fields
  shape : Shape
  joins : List JoinPlan

namespace SelectScope

/-- The scope of a table without joins. -/
def ofTable (t : Table) : SelectScope :=
  ⟨.forSelect t, .ofTable t.key t, []⟩

/-- Adds a join. Its alias may not stand in the default shape yet, where it gets an object of the
joined columns. -/
def join (s : Schema) (scope : SelectScope) (j : Join) : Except Error SelectScope := do
  let table ← s.table j.table
  match j.condition with
  | none => throw (.invalidStatement (.joinWithoutCondition j.label))
  | some condition =>
    if condition.operator.isSet then
      throw (.invalidStatement (.joinOperator j.label condition.operator))
    if scope.shape.has j.label then throw (.invalidStatement (.aliasInUse j.label))
    let column ← table.column condition.column
    let field ← scope.fields.resolve condition.field
    return {
      fields := scope.fields.add j.label (Text.identifier j.label) table
      shape := scope.shape ++ [(j.label, .nested (Shape.ofTable j.label table))]
      joins := scope.joins ++ [⟨j.kind, table, j.label, column, condition.operator, field⟩] }

end SelectScope

/-- A selected expression. -/
structure SelectItem where
  /-- The alias under which rows carry the value. -/
  label : String
  sql : String
deriving DecidableEq

namespace SelectItem

mutual

/-- The items of a node. Fields and expressions are selected under their own text. -/
def ofNode (fields : Fields) : ShapeNode → Except Error (List SelectItem)
  | .field key => do return [⟨key, (← fields.resolve key).sql⟩]
  | .raw expression => .ok [⟨expression, expression⟩]
  | .nested entries => ofEntries fields entries

/-- The items of a shape, in the order in which they stand in it. -/
def ofEntries (fields : Fields) : List (String × ShapeNode) → Except Error (List SelectItem)
  | [] => .ok []
  | (_, n) :: rest => do
    let first ← ofNode fields n
    return first ++ (← ofEntries fields rest)

end

/-- Keeps the first item of every alias. -/
def distinct (items : List SelectItem) : List SelectItem :=
  items.foldl (fun kept i => if kept.any (fun k => k.label == i.label) then kept else kept ++ [i]) []

def render (i : SelectItem) : Fragment :=
  .raw s!"{i.sql} as {Text.identifier i.label}"

end SelectItem

/-- A select that has found its tables and columns. -/
structure SelectPlan where
  table : Table
  scope : SelectScope
  shape : Shape
  items : List SelectItem
  inclusion : Inclusion
  embeddings : List (String × Embedding)
  filter : Option Predicate
  groupBy : List String
  having : Option Predicate
  orderBy : List (String × Direction)
  /-- Not negative. -/
  limit : Option Int64
  /-- Not negative. -/
  offset : Option Int64

namespace SelectPlan

/-- The plan of a select from the table of a key. -/
def ofSelect (s : Schema) (key : String) (q : Select) : Except Error SelectPlan := do
  let table ← s.table key
  let scope ← q.joins.foldlM (SelectScope.join s) (.ofTable table)
  let shape := q.shape.getD scope.shape
  let items := SelectItem.distinct (← SelectItem.ofEntries scope.fields shape)
  let inclusion := q.inclusion.getD .empty
  let (embeddings, _) ← Embedding.ofInclusions s inclusion.relations table.key table.name 0
  if items.isEmpty && embeddings.isEmpty then
    throw (.invalidStatement (.emptyProjection table.key))
  let filter ← q.filter.mapM (Predicate.ofFilter scope.fields)
  let having ← q.having.mapM (Predicate.ofFilter scope.fields)
  return {
    table := table
    scope := scope
    shape := shape
    items := items
    inclusion := inclusion
    embeddings := embeddings
    filter := filter
    groupBy := (q.groupBy.map GroupBy.keys).getD []
    having := having
    orderBy := (q.orderBy.map OrderBy.keys).getD []
    limit := q.limit.filter fun n => 0 ≤ n
    offset := q.offset.filter fun n => 0 ≤ n }

/-! ## SQL -/

/-- The selected items, then the embedded relations under their names. -/
def projection (p : SelectPlan) : Fragment :=
  let embedded := p.embeddings.map fun (name, e) =>
    e.render.appendRaw s!"as {Text.identifier name}"
  .join ", " (p.items.map SelectItem.render ++ embedded)

/-- `group by` and its keys, or nothing. -/
def grouping (p : SelectPlan) : String :=
  if p.groupBy.isEmpty then ""
  else "group by " ++ ", ".intercalate (p.groupBy.map Text.identifier)

/-- `order by` and its keys, or nothing. -/
def ordering (p : SelectPlan) : String :=
  if p.orderBy.isEmpty then ""
  else "order by " ++ ", ".intercalate
    (p.orderBy.map fun (key, direction) => s!"{Text.identifier key} {direction.sql}")

/-- Limit and offset. An offset alone needs a limit that limits nothing. -/
def window (p : SelectPlan) : Fragment :=
  let limit :=
    match p.limit, p.offset with
    | some n, _ => (Fragment.raw "limit").append (.parameter (.integer n))
    | none, some _ => .raw "limit -1"
    | none, none => .empty
  match p.offset with
  | some n => (limit.appendRaw "offset").append (.parameter (.integer n))
  | none => limit

/-- The SQL of a plan. -/
def render (p : SelectPlan) : Fragment :=
  let from_ := ((Fragment.raw "select").append p.projection).appendRaw s!"from {p.table.name}"
  let joined := p.scope.joins.foldl (fun f j => f.append j.render) from_
  let filtered := joined.appendCondition "where" p.filter
  let grouped := (filtered.appendRaw p.grouping).appendCondition "having" p.having
  (grouped.appendRaw p.ordering).append p.window

end SelectPlan

/-- Compiles a select from the table of a key. -/
def Select.compile (s : Schema) (key : String) (q : Select) : Except Error Compiled := do
  let p ← SelectPlan.ofSelect s key q
  return ⟨p.render, .select ⟨s, p.table.key, p.scope.fields, p.shape, p.inclusion⟩⟩

end Tabula
