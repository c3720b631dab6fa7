import Tabula.Session.Basic
import Tabula.Plan.Compiled
import Tabula.Statement.Query

/-!
# Queries

A query collects the clauses of one statement on one table and touches its session only when it is
executed. A clause that cannot be read is left out and the query keeps the fault; the first fault
kept is what building or executing the query fails with.
-/

namespace Tabula

/-- Statements that compile against the table of a key. -/
class Compilable (κ : Type) where
  compile : Schema → String → κ → Except Error Compiled

/-- A statement of clauses `κ` on a session. -/
structure Query (σ κ : Type) where
  session : Session σ
  schema : Schema
  table : String
  clauses : κ
  fault : Option StatementFault := none

namespace Query

variable {σ κ α : Type}

/-- Sets a clause to what is given, or keeps the fault if that cannot be read. -/
def accept [Descriptor α] (q : Query σ κ) (given : Given α) (set : κ → Option α → κ) :
    Query σ κ :=
  match given.read with
  | .ok a => { q with clauses := set q.clauses (some a) }
  | .error fault =>
    { q with clauses := set q.clauses none, fault := some (q.fault.getD fault) }

/-- Compiles the query without executing it. -/
def build [Compilable κ] (q : Query σ κ) : Except Error Compiled :=
  match q.fault with
  | some fault => .error (.invalidStatement fault)
  | none => Compilable.compile q.schema q.table q.clauses

/-- Runs the query for what it changes. -/
def run [Compilable κ] (q : Query σ κ) : Action σ RunResult := do
  let c ← Action.ofExcept q.build
  (q.session.prepare c.sql c.params).run

/-- Runs the query for its first row, if there is one. -/
def first [Compilable κ] (q : Query σ κ) : Action σ (Option Json) := do
  let c ← Action.ofExcept q.build
  let row ← (q.session.prepare c.sql c.params).get
  Action.ofExcept (row.mapM c.mapper.mapRow)

/-- Runs the query for all its rows. -/
def all [Compilable κ] (q : Query σ κ) : Action σ (List Json) := do
  let c ← Action.ofExcept q.build
  let rows ← (q.session.prepare c.sql c.params).all
  Action.ofExcept (c.mapper.mapRows rows)

end Query

/-- A result as a value of another type, or the failure to read it as one. -/
def Json.readAs {α : Type} (read : Json → Option α) (j : Json) : Except Error α :=
  match read j with
  | some a => .ok a
  | none => .error (.mapping (.unexpected j))

end Tabula
