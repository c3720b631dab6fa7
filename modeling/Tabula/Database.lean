import Tabula.Transaction

/-!
# Databases

The outermost connection: it creates the tables of its schema, takes more declarations in and
begins transactions.
-/

namespace Tabula

/-- A session and the schema of its store, outside of any transaction. -/
structure Database (σ : Type) extends Connection σ

namespace Database

variable {σ α : Type}

/-- Creates the tables that the store lacks. -/
def create (db : Database σ) : Action σ Unit :=
  db.schema.createStatements.forM fun statement => do
    let _ ← db.session.run statement []

/-- The database on the same session with declarations laid over those of its schema. -/
def merge (db : Database σ) (declarations : List (String × Declaration)) :
    Except Error (Database σ) := do
  return { db with schema := ← db.schema.merge declarations }

/-- Runs `body` in a transaction. -/
def transaction (db : Database σ) (body : Transaction σ → Action σ α) : Action σ α :=
  Transaction.begin db.toConnection body

end Database

end Tabula
