import Tabula.Query.Basic
import Tabula.Plan.Insert
import Tabula.Plan.Update

/-!
# Queries that write

An insert, update or delete answers with what it changed, or, once it is asked for returned
columns, with the rows it wrote.
-/

namespace Tabula

instance : Compilable Insert := ⟨Insert.compile⟩

instance : Compilable Update := ⟨Update.compile⟩

instance : Compilable Delete := ⟨Delete.compile⟩

/-- Statements that can return the rows they write. -/
class Write (κ : Type) extends Compilable κ where
  setReturning : κ → Option Returning → κ
  /-- Whether the result is the list of the rows and not the first. -/
  isMany : κ → Bool

instance : Write Insert where
  setReturning c r := { c with returning := r }
  isMany c := c.values.any Values.isMany

instance : Write Update where
  setReturning c r := { c with returning := r }
  isMany _ := false

instance : Write Delete where
  setReturning c r := { c with returning := r }
  isMany _ := false

abbrev InsertQuery (σ : Type) := Query σ Insert

abbrev UpdateQuery (σ : Type) := Query σ Update

abbrev DeleteQuery (σ : Type) := Query σ Delete

namespace InsertQuery

/-- What is inserted. -/
def values {σ : Type} (q : InsertQuery σ) (given : Given Values) : InsertQuery σ :=
  q.accept given fun c a => { c with values := a }

end InsertQuery

namespace UpdateQuery

variable {σ : Type}

/-- What is written. -/
def set (q : UpdateQuery σ) (given : Given Sets) : UpdateQuery σ :=
  q.accept given fun c a => { c with sets := a }

/-- Which rows are changed. -/
def filter (q : UpdateQuery σ) (given : Given Filter) : UpdateQuery σ :=
  q.accept given fun c a => { c with filter := a }

end UpdateQuery

namespace DeleteQuery

/-- Which rows are deleted. -/
def filter {σ : Type} (q : DeleteQuery σ) (given : Given Filter) : DeleteQuery σ :=
  q.accept given fun c a => { c with filter := a }

end DeleteQuery

/-- A query that returns the rows it writes. -/
structure ReturningQuery (σ κ : Type) where
  query : Query σ κ

/-- Asks for returned columns. -/
def Query.returning {σ κ : Type} [Write κ] (q : Query σ κ) (given : Given Returning) :
    ReturningQuery σ κ :=
  ⟨q.accept given Write.setReturning⟩

namespace ReturningQuery

variable {σ κ α : Type} [Write κ]

/-- Compiles the query without executing it. -/
def build (q : ReturningQuery σ κ) : Except Error Compiled :=
  q.query.build

/-- Runs the query for all rows written. -/
def all (q : ReturningQuery σ κ) : Action σ (List Json) :=
  q.query.all

/-- Runs the query for its result: all rows of an insert of several, else the first row or
null. -/
def execute (q : ReturningQuery σ κ) : Action σ Json := do
  let rows ← q.all
  return if Write.isMany q.query.clauses then .arr rows else rows.head?.getD .null

/-- The result as a value of another type. -/
def executeAs (q : ReturningQuery σ κ) (read : Json → Option α) : Action σ α := do
  let result ← q.execute
  Action.ofExcept (result.readAs read)

end ReturningQuery

end Tabula
