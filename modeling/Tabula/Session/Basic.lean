import Tabula.Error
import Tabula.Result.Row

/-!
# Sessions

A session is the way to a store: SQL and parameters in, rows and counts of changes out. Whatever
runs on one is an `Action` over the state of the store. An action that fails keeps what it has
done to the state until then.
-/

namespace Tabula

/-- Work on a store with states `σ`. -/
abbrev Action (σ : Type) := ExceptT Error (StateM σ)

namespace Action

variable {σ α : Type}

/-- What needs no store. -/
def ofExcept (e : Except Error α) : Action σ α :=
  ExceptT.mk (pure e)

/-- Runs an action and gives its failure as a value. -/
def attempt (a : Action σ α) : Action σ (Except Error α) :=
  ExceptT.lift a.run

end Action

/-- What a statement changed. -/
structure RunResult where
  changes : UInt64 := 0
  lastInsertId : Int64 := 0
deriving DecidableEq

/-- The calls that a store answers. -/
structure Session (σ : Type) where
  /-- Runs a statement for what it changes. -/
  run : String → List Value → Action σ RunResult
  /-- Runs a query for its first row. -/
  get : String → List Value → Action σ (Option Row)
  /-- Runs a query for all its rows. -/
  all : String → List Value → Action σ (List Row)
  /-- Runs statements without parameters. -/
  batch : String → Action σ Unit
  /-- Takes the store for one transaction; a session that shares it does nothing. -/
  acquire : Action σ Unit := pure ()

namespace Session

variable {σ τ : Type}

/-- A session for actions that keep a state of their own beside that of the store. -/
def withState (s : Session σ) : Session (σ × τ) :=
  let lift {α : Type} (a : Action σ α) : Action (σ × τ) α :=
    ExceptT.mk fun (st, own) =>
      let (result, st) := a.run.run st
      (result, (st, own))
  { run := fun sql params => lift (s.run sql params)
    get := fun sql params => lift (s.get sql params)
    all := fun sql params => lift (s.all sql params)
    batch := fun sql => lift (s.batch sql)
    acquire := lift s.acquire }

end Session

/-- SQL and parameters that run on a session as often as wanted. -/
structure Prepared (σ : Type) where
  session : Session σ
  sql : String
  params : List Value

/-- Ties SQL and parameters to a session. -/
def Session.prepare {σ : Type} (s : Session σ) (sql : String) (params : List Value) : Prepared σ :=
  ⟨s, sql, params⟩

namespace Prepared

variable {σ : Type}

def run (p : Prepared σ) : Action σ RunResult :=
  p.session.run p.sql p.params

def get (p : Prepared σ) : Action σ (Option Row) :=
  p.session.get p.sql p.params

def all (p : Prepared σ) : Action σ (List Row) :=
  p.session.all p.sql p.params

end Prepared

end Tabula
