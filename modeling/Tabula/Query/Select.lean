import Tabula.Query.Basic
import Tabula.Plan.Select

/-!
# Select queries

The calls that configure a select come in any order. A call replaces its clause; only joins add
up.
-/

namespace Tabula

instance : Compilable Select := ⟨Select.compile⟩

/-- A select under configuration. -/
abbrev SelectQuery (σ : Type) := Query σ Select

/-- A call that configures a select. -/
inductive SelectCall where
  | join (j : Join)
  | shape (given : Given Shape)
  | inclusion (given : Given Inclusion)
  | filter (given : Given Filter)
  | groupBy (given : Given GroupBy)
  | having (given : Given Filter)
  | orderBy (given : Given OrderBy)
  | limit (n : Int64)
  | offset (n : Int64)

namespace SelectQuery

variable {σ α : Type}

/-- Makes one call. -/
def call (q : SelectQuery σ) : SelectCall → SelectQuery σ
  | .join j => { q with clauses := { q.clauses with joins := q.clauses.joins ++ [j] } }
  | .shape given => q.accept given fun c a => { c with shape := a }
  | .inclusion given => q.accept given fun c a => { c with inclusion := a }
  | .filter given => q.accept given fun c a => { c with filter := a }
  | .groupBy given => q.accept given fun c a => { c with groupBy := a }
  | .having given => q.accept given fun c a => { c with having := a }
  | .orderBy given => q.accept given fun c a => { c with orderBy := a }
  | .limit n => { q with clauses := { q.clauses with limit := some n } }
  | .offset n => { q with clauses := { q.clauses with offset := some n } }

/-- The first row as a value of another type. -/
def firstAs (q : SelectQuery σ) (read : Json → Option α) : Action σ (Option α) := do
  let row ← q.first
  Action.ofExcept (row.mapM (Json.readAs read))

/-- All rows as values of another type. -/
def allAs (q : SelectQuery σ) (read : Json → Option α) : Action σ (List α) := do
  let rows ← q.all
  Action.ofExcept (rows.mapM (Json.readAs read))

end SelectQuery

end Tabula
