import Tabula.Plan.Embedding
import Tabula.Proofs.Fragment

/-!
# The SQL of an embedding

The subquery of an embedding makes an object of each row. Behind the object it names the table that
it reads, and behind `where` stands the condition that ties the rows to the row around them.
-/

namespace Tabula.Embedding

/-! ## Around the object of a row -/

/-- The SQL before the object of a row. -/
def opening (e : Embedding) : String :=
  match e.kind with
  | .one => "(select "
  | .many => "(select json_group_array("

/-- The SQL behind the object of a row. -/
def closing (e : Embedding) : String :=
  match e.kind with
  | .one => s!" from {e.table.name} as {e.label} where {e.condition})"
  | .many =>
    s!") from (select * from {e.table.name} as {e.label} where {e.condition}" ++
      (if e.limit.isSome then " limit ?" else "") ++ s!") as {e.label})"

theorem sql_object (e : Embedding) (nested : List Fragment) : (e.object nested).sql =
    "json_object(" ++ ", ".intercalate
      ((e.table.columns.map fun c => s!"'{c.key}', {c.embedded e.label}") ++
        nested.map Fragment.sql) ++ ")" := by
  rw [object, Fragment.pushRaw, Fragment.sql_append, Fragment.sql_append, Fragment.sql_join]
  simp [Function.comp_def]

theorem sql_subquery (e : Embedding) (nested : List Fragment) :
    (e.subquery nested).sql = e.opening ++ (e.object nested).sql ++ e.closing := by
  have hobject : (e.object nested).sql ≠ "" := by simp [sql_object]
  apply String.toList_injective
  unfold subquery opening closing
  cases e.kind with
  | one =>
    simp [Fragment.sql_append_eq, Fragment.appendRaw, Fragment.sql_parens, hobject, toString]
  | many =>
    cases e.limit <;>
      simp [Fragment.sql_append_eq, Fragment.appendRaw, Fragment.pushRaw, Fragment.sql_append,
        Fragment.sql_parens, hobject, toString]

/-! ## Around the condition -/

/-- The SQL before the table that is read. -/
def selection (e : Embedding) : String :=
  e.opening ++ (e.object (properties e.nested)).sql ++
    match e.kind with
    | .one => " "
    | .many => ") from (select * "

/-- The SQL behind the condition. -/
def ending (e : Embedding) : String :=
  match e.kind with
  | .one => ")"
  | .many => (if e.limit.isSome then " limit ?" else "") ++ s!") as {e.label})"

/-- The condition stands behind `where`. -/
theorem sql_render (e : Embedding) : e.render.sql =
    e.selection ++ s!"from {e.table.name} as {e.label} where {e.condition}" ++ e.ending := by
  have hrender : e.render = e.subquery (properties e.nested) := by
    cases e
    rfl
  apply String.toList_injective
  rw [hrender, sql_subquery]
  unfold closing selection ending
  cases e.kind with
  | one => simp [toString]
  | many => simp [toString]

end Tabula.Embedding
