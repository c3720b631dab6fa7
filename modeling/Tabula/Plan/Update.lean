import Tabula.Plan.Compiled
import Tabula.Schema.Basic
import Tabula.Statement.Query

/-!
# Compiling updates and deletes

Both find the rows they change by a filter over the bare columns of their table; an update writes
only the columns it is given.
-/

namespace Tabula

/-- An update that has found its columns. -/
structure UpdatePlan where
  table : Table
  sets : List (Column × Value)
  filter : Option Predicate
  returning : Option (List Column)

namespace UpdatePlan

/-- The plan of an update of the table of a key. -/
def ofUpdate (s : Schema) (key : String) (q : Update) : Except Error UpdatePlan := do
  let table ← s.table key
  let members := (q.sets.map fun sets => sets.object.members).getD []
  if members.isEmpty then throw (.missingSets table.key)
  let sets ← members.mapM fun (key, j) => do
    let c ← table.column key
    return (c, ← c.encode j)
  let filter ← q.filter.mapM (Predicate.ofFilter (.forWrite table))
  let returning ← q.returning.mapM (Returning.plan table)
  return ⟨table, sets, filter, returning⟩

/-- The assignment of a column. -/
def assignment (c : Column) (v : Value) : Fragment :=
  (Fragment.raw s!"{c.name} =").append (.parameter v)

/-- The SQL of a plan. -/
def render (p : UpdatePlan) : Fragment :=
  let assignments := Fragment.join ", " (p.sets.map fun (c, v) => assignment c v)
  (((Fragment.raw s!"update {p.table.name} set").append assignments).appendCondition
    "where" p.filter).appendReturning p.returning

end UpdatePlan

/-- A delete that has found its columns. -/
structure DeletePlan where
  table : Table
  filter : Option Predicate
  returning : Option (List Column)

namespace DeletePlan

/-- The plan of a delete from the table of a key. -/
def ofDelete (s : Schema) (key : String) (q : Delete) : Except Error DeletePlan := do
  let table ← s.table key
  let filter ← q.filter.mapM (Predicate.ofFilter (.forWrite table))
  let returning ← q.returning.mapM (Returning.plan table)
  return ⟨table, filter, returning⟩

/-- The SQL of a plan. -/
def render (p : DeletePlan) : Fragment :=
  ((Fragment.raw s!"delete from {p.table.name}").appendCondition "where" p.filter).appendReturning
    p.returning

end DeletePlan

/-- Compiles an update of the table of a key. -/
def Update.compile (s : Schema) (key : String) (q : Update) : Except Error Compiled := do
  let p ← UpdatePlan.ofUpdate s key q
  return ⟨p.render, .returning p.table⟩

/-- Compiles a delete from the table of a key. -/
def Delete.compile (s : Schema) (key : String) (q : Delete) : Except Error Compiled := do
  let p ← DeletePlan.ofDelete s key q
  return ⟨p.render, .returning p.table⟩

end Tabula
