import Tabula.Proofs.Transaction.Store

/-!
# Programs that run in transactions

The body of a transaction is a program: it asks the store, goes on with the answer, opens scopes
inside of its own, and ends with a result. A program runs on an observed session, where each call is
logged with its outcome. It notes for itself what it has done, as far as it is told.
-/

namespace Tabula

variable {σ : Type}

/-! ## Observed sessions -/

/-- What the body of a transaction does that matters to the store. -/
inductive Event where
  | wrote (call : Call)
  | scope (succeeded : Bool) (inside : List Event)

namespace Event

mutual

def keptOf : Event → List Call
  | wrote call => [call]
  | scope true inside => kept inside
  | scope false _ => []

/-- The calls that stand if a scope counts only if it has succeeded. -/
def kept : List Event → List Call
  | [] => []
  | e :: rest => keptOf e ++ kept rest

end

theorem kept_append (es es' : List Event) : kept (es ++ es') = kept es ++ kept es' := by
  induction es with
  | nil => rfl
  | cons e es ih => rw [List.cons_append, kept, kept, ih, List.append_assoc]

end Event

/-- The state of a session with what has been seen of it. -/
structure Observed (σ : Type) where
  state : σ
  /-- The calls, the oldest first. -/
  log : List Entry
  /-- What the scope that is running has done so far. -/
  history : List Event

namespace Observed

def call {α : Type} (c : Call) (a : Action σ α) : Action (Observed σ) α :=
  ExceptT.mk fun o =>
    let (result, st) := a.run.run o.state
    (result, { o with state := st, log := o.log ++ [⟨c, result.isOk⟩] })

def note (e : Event) : Action (Observed σ) Unit :=
  modify fun o => { o with history := o.history ++ [e] }

/-- Begins another history and gives the one so far. -/
def exchange (history : List Event) : Action (Observed σ) (List Event) :=
  modifyGet fun o => (o.history, { o with history := history })

end Observed

def Session.observed (s : Session σ) : Session (Observed σ) where
  run sql params := Observed.call ⟨.run, sql, params⟩ (s.run sql params)
  get sql params := Observed.call ⟨.get, sql, params⟩ (s.get sql params)
  all sql params := Observed.call ⟨.all, sql, params⟩ (s.all sql params)
  batch sql := Observed.call ⟨.batch, sql, []⟩ (s.batch sql)
  acquire := ExceptT.mk fun o =>
    let (result, st) := s.acquire.run.run o.state
    (result, { o with state := st })

/-! ## Programs -/

/-- What a program may ask the store for, by the type of the answer. -/
inductive Statement : Type → Type where
  | run (sql : String) (params : List Value) : Statement RunResult
  | get (sql : String) (params : List Value) : Statement (Option Row)
  | all (sql : String) (params : List Value) : Statement (List Row)
  | batch (sql : String) : Statement Unit

namespace Statement

variable {α : Type}

def call : Statement α → Call
  | run sql params => ⟨.run, sql, params⟩
  | get sql params => ⟨.get, sql, params⟩
  | all sql params => ⟨.all, sql, params⟩
  | batch sql => ⟨.batch, sql, []⟩

/-- Runs a statement through a connection. -/
def perform (c : Connection σ) : Statement α → Action σ α
  | run sql params => (c.raw sql params).run
  | get sql params => (c.raw sql params).get
  | all sql params => (c.raw sql params).all
  | batch sql => c.session.batch sql

end Statement

/-- The body of a transaction with a result in `α`. Whatever a statement or a scope inside of it
answers, an error as well, the program goes on with it as it likes. -/
inductive Program : Type → Type 1 where
  | done {α : Type} (result : Except Error α) : Program α
  | ask {α β : Type} (statement : Statement β) (next : Except Error β → Program α) : Program α
  | scope {α β : Type} (body : Program β) (next : Except Error β → Program α) : Program α

namespace Program

/-- The store reads no statement of the program as one that opens or closes scopes. -/
def Ordinary (R : ControlReader) {α : Type} : Program α → Prop
  | done _ => True
  | ask statement next => R.controls statement.call.sql = [] ∧ ∀ r, (next r).Ordinary R
  | scope body next => body.Ordinary R ∧ ∀ r, (next r).Ordinary R

/-- Runs a program as the body of a transaction. -/
def run {α : Type} : Program α → Transaction (Observed σ) → Action (Observed σ) α
  | done result, _ => .ofExcept result
  | ask statement next, t => do
    let r ← (statement.perform t.toConnection).attempt
    if r.isOk then Observed.note (.wrote statement.call)
    (next r).run t
  | scope body next, t => do
    let outside ← Observed.exchange []
    let r ← (t.transaction body.run).attempt
    let inside ← Observed.exchange outside
    Observed.note (.scope r.isOk inside)
    (next r).run t

end Program

end Tabula
