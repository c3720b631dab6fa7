import Tabula.Session.Basic

/-!
# Scripted sessions

A session that answers from a list of responses and keeps a log of its calls. Calls whose SQL
begins with one of the failing texts fail after they are logged. A script shows what a program asks
of the store without there being one.
-/

namespace Tabula

/-- The calls of a session. -/
inductive CallKind where
  | run
  | get
  | all
  | batch
  | acquire
deriving DecidableEq

/-- A call as the log keeps it. -/
structure Call where
  kind : CallKind
  sql : String
  params : List Value
deriving DecidableEq

/-- An answer of the script. Rows are no answer to `run`, a count of changes none to a query; such
a call gets an empty result. -/
inductive Response where
  | failure (cause : String)
  | changed (result : RunResult)
  | rows (rows : List Row)
  | nothing
deriving DecidableEq

/-- The state of a scripted session. -/
structure Script where
  /-- The responses that are left. -/
  responses : List Response
  /-- How the SQL of failing calls begins. -/
  failing : List String
  /-- The calls so far, the oldest first. -/
  log : List Call := []

namespace Script

/-- Logs a call and fails it if it is to fail. -/
def record (call : Call) : Action Script Unit := do
  modify fun s => { s with log := s.log ++ [call] }
  if (← get).failing.any fun start => start.toList.isPrefixOf call.sql.toList then
    throw (.transaction s!"{call.sql} failed")

/-- Takes the next response. -/
def respond : Action Script Response := do
  match (← get).responses with
  | [] => return .nothing
  | r :: rest =>
    modify fun s => { s with responses := rest }
    match r with
    | .failure cause => throw (.other cause)
    | r => return r

/-- The rows of the next response. -/
def respondRows : Action Script (List Row) := do
  match ← respond with
  | .rows rows => return rows
  | _ => return []

/-- The session of a script. An exclusive one logs that it is acquired. -/
def session (exclusive : Bool) : Session Script where
  run sql params := do
    record ⟨.run, sql, params⟩
    match ← respond with
    | .changed result => return result
    | _ => return {}
  get sql params := do
    record ⟨.get, sql, params⟩
    return (← respondRows).head?
  all sql params := do
    record ⟨.all, sql, params⟩
    respondRows
  batch sql := record ⟨.batch, sql, []⟩
  acquire := if exclusive then record ⟨.acquire, "acquire", []⟩ else pure ()

end Script

end Tabula
