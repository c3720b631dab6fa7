import Tabula.Connection

/-!
# Transactions

The outermost transaction begins and commits; one inside of another is a savepoint named for its
depth. A scope whose body fails is rolled back, and the body's error goes on to the caller even if
rolling back fails too.
-/

namespace Tabula

/-- A connection inside of a transaction. -/
structure Transaction (σ : Type) extends Connection σ where
  /-- How many transactions are around this one. -/
  depth : Nat

namespace Transaction

variable {σ α : Type}

/-- Fails the body of the current scope without any other error. -/
def rollback : Action σ α :=
  throw .rollback

/-- Runs `body` between two statements: `opening`, then `closing` if it succeeds or `undoing` if
it fails. -/
def scope (session : Session σ) (opening closing undoing : String) (body : Action σ α) :
    Action σ α := do
  session.batch opening
  match ← body.attempt with
  | .ok a =>
    session.batch closing
    return a
  | .error e =>
    let _ ← (session.batch undoing).attempt
    throw e

/-- Runs `body` in a savepoint. -/
def transaction (t : Transaction σ) (body : Transaction σ → Action σ α) : Action σ α :=
  let inner := { t with depth := t.depth + 1 }
  let name := s!"sp{inner.depth}"
  scope t.session s!"savepoint {name}" s!"release {name}" s!"rollback to {name}; release {name}"
    (body inner)

/-- Runs `body` in an outermost transaction, which takes the store for itself. -/
def begin (c : Connection σ) (body : Transaction σ → Action σ α) : Action σ α := do
  c.session.acquire
  scope c.session "begin deferred" "commit" "rollback" (body { c with depth := 0 })

end Transaction

end Tabula
