import Tabula.Schema.Basic
import Tabula.Statement.Inclusion
import Tabula.Fragment

/-!
# Embedded relations

Included rows come as JSON that a subquery makes for each row of the result. An embedding is the
plan of one such subquery: the table it reads, under which alias, how its rows belong to the row
around them, and the embeddings inside of it. Aliases are `r1`, `r2`, … in the order in which the
subqueries begin.
-/

namespace Tabula

/-- A subquery that makes included rows into JSON. -/
structure Embedding where
  kind : RelationKind
  table : Table
  /-- The alias of the table. -/
  label : String
  /-- The name of the row that the rows belong to. -/
  parent : String
  /-- Which column of the table equals which column of that row. -/
  pairs : List (Column × Column)
  limit : Option Int64
  nested : List (String × Embedding)

namespace Embedding

/-- The pairs of columns that a relation is joined on. -/
def pairsOf (source referenced : Table) (r : Relation) : Except Error (List (Column × Column)) :=
  (r.sourceFields.zip r.referencedFields).mapM fun (sourceField, referencedField) => do
    let sourceColumn ← source.column sourceField
    let referencedColumn ← referenced.column referencedField
    return (referencedColumn, sourceColumn)

mutual

/-- The embedding of a relation for rows known as `parent`, after `used` aliases. Gives the number
of aliases used with it. -/
def ofRelation (s : Schema) : Inclusion → Relation → String → Nat → Except Error (Embedding × Nat)
  | ⟨limit, relations⟩, r, parent, used => do
    let source ← s.tableNamed r.source
    let referenced ← s.tableNamed r.referenced
    let label := s!"r{used + 1}"
    let (nested, used) ← ofInclusions s relations referenced.key label (used + 1)
    let pairs ← pairsOf source referenced r
    return (⟨r.kind, referenced, label, parent, pairs, limit, nested⟩, used)

/-- The embeddings of relations of the table of a key. -/
def ofInclusions (s : Schema) : List (String × Inclusion) → String → String → Nat →
    Except Error (List (String × Embedding) × Nat)
  | [], _, _, used => .ok ([], used)
  | (name, inner) :: rest, key, parent, used => do
    let r ← s.relation key name
    let (first, used) ← ofRelation s inner r parent used
    let (others, used) ← ofInclusions s rest key parent used
    return ((name, first) :: others, used)

end

/-! ## SQL -/

/-- The equalities that tie the rows to the row they belong to. -/
def condition (e : Embedding) : String :=
  " and ".intercalate (e.pairs.map fun (mine, theirs) =>
    s!"{e.label}.{mine.name} = {e.parent}.{theirs.name}")

/-- The object of a row: its columns, then what is embedded in it. -/
def object (e : Embedding) (nested : List Fragment) : Fragment :=
  let columns := e.table.columns.map fun c => Fragment.raw s!"'{c.key}', {c.embedded e.label}"
  ((Fragment.raw "json_object(").push (.join ", " (columns ++ nested))).pushRaw ")"

/-- The subquery, given the properties of what is embedded in its rows. -/
def subquery (e : Embedding) (nested : List Fragment) : Fragment :=
  match e.kind with
  | .one =>
    (((Fragment.raw "select").append (e.object nested)).appendRaw
      s!"from {e.table.name} as {e.label} where {e.condition}").parens
  | .many =>
    let rows := Fragment.raw s!"select * from {e.table.name} as {e.label} where {e.condition}"
    let rows :=
      match e.limit with
      | some limit => (rows.appendRaw "limit").append (.parameter (.integer limit))
      | none => rows
    let array := ((Fragment.raw "json_group_array(").push (e.object nested)).pushRaw ")"
    (((((Fragment.raw "select").append array).appendRaw "from").append rows.parens).appendRaw
      s!"as {e.label}").parens

mutual

/-- The SQL of an embedding. -/
def render : Embedding → Fragment
  | ⟨kind, table, label, parent, pairs, limit, nested⟩ =>
    subquery ⟨kind, table, label, parent, pairs, limit, nested⟩ (properties nested)

/-- The properties of embeddings inside of the object of a row. -/
def properties : List (String × Embedding) → List Fragment
  | [] => []
  | (name, e) :: rest =>
    ((Fragment.raw s!"'{name}', json(").push e.render).pushRaw ")" :: properties rest

end

end Embedding

end Tabula
