import Tabula.Query.Select
import Tabula.Query.Write
import Tabula.Schema.Assemble

/-!
# Connections

A session together with a schema, and the queries that start from it. Databases and transactions
are connections.
-/

namespace Tabula

/-- A session and the schema of its store. -/
structure Connection (σ : Type) where
  session : Session σ
  schema : Schema

namespace Connection

variable {σ : Type}

/-- A select from a table. -/
def select (c : Connection σ) (table : String) : SelectQuery σ :=
  { session := c.session, schema := c.schema, table := table, clauses := {} }

/-- An insert into a table. -/
def insert (c : Connection σ) (table : String) : InsertQuery σ :=
  { session := c.session, schema := c.schema, table := table, clauses := {} }

/-- An update of a table. -/
def update (c : Connection σ) (table : String) : UpdateQuery σ :=
  { session := c.session, schema := c.schema, table := table, clauses := {} }

/-- A delete from a table. -/
def delete (c : Connection σ) (table : String) : DeleteQuery σ :=
  { session := c.session, schema := c.schema, table := table, clauses := {} }

/-- SQL with parameters, as it is. -/
def raw (c : Connection σ) (sql : String) (params : List Value) : Prepared σ :=
  c.session.prepare sql params

end Connection

end Tabula
