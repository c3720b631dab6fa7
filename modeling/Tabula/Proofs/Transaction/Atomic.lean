import Tabula.Proofs.Transaction.Replay
import Tabula.Proofs.Schema.Assembled

/-!
# Transactions are atomic scopes

On a session that neither fails to close scopes nor to roll back, what a transaction has said leaves
in a store the writes of those scopes alone that have succeeded, down from the transaction itself.
-/

namespace Tabula

open Observed (Sees sees_call)

variable {σ α : Type} {R : ControlReader} {S : Session σ} {l : List Entry} {es : List Event}

/-- The logs of an outermost transaction. -/
abbrev TransactionLog (R : ControlReader) (S : Session σ) :=
  ScopeLog R S 0 "begin deferred" "commit" "rollback"

/-- A transaction that is rolled back leaves the store as it was. -/
theorem replay_rolledBack {s : Store} (hs : s.scopes = []) (hbody : R.Replays S 0 l es) :
    s.replay R (.batch "begin deferred" true :: (l ++ [.batch "rollback" true])) = some s := by
  obtain ⟨s₁, hreplay, hgrows, -⟩ := hbody s.begun
  rw [Store.replay_begin hs, Store.replay_append, hreplay, Option.bind_some,
    Store.replay_rollback hgrows.getLast?_begun, ← hs]

theorem TransactionLog.replay {ok : Bool} (h : TransactionLog R S ok l es) (hS : S.Closes)
    {s : Store} (hs : s.scopes = []) :
    s.replay R l = some (s.write (Event.kept [.scope ok es])) := by
  have hfailed : s.write (Event.kept [.scope false es]) = s := by
    simp [Store.write, Event.kept, Event.keptOf]
  cases h with
  | unopened => exact congrArg some hfailed.symm
  | closed hbody =>
    obtain ⟨s₁, hreplay, hgrows, hwrites⟩ := hbody s.begun
    rw [Store.replay_begin hs, Store.replay_append, hreplay, Option.bind_some,
      Store.replay_commit hgrows.scopes_ne_nil, hwrites hS]
    simp [Store.begun, Store.write, Event.kept, Event.keptOf, hs]
  | unclosed hcloses hbody => exact absurd hS hcloses
  | undone hbody => rw [replay_rolledBack hs hbody, hfailed]

namespace Database

/-- A transaction fails to take the store and has said nothing, or has one of the logs of a
transaction. -/
theorem transactionLog (hS : S.RollsBack) {p : Program α} (hp : p.Ordinary R)
    {db : Database (Observed σ)} (hdb : db.session = S.observed) {o o' : Observed σ}
    {r : Except Error α} (h : (db.transaction p.run).exec o = (r, o')) :
    (∃ e, r = .error e ∧ Sees [] [] o o') ∨
      ∃ l es, Sees l es o o' ∧ TransactionLog R S r.isOk l es := by
  rw [transaction, Transaction.begin, hdb, Action.exec_bind] at h
  have hacquire : ∃ x o₁, S.observed.acquire.exec o = (x, o₁) ∧ Sees [] [] o o₁ :=
    ⟨_, _, rfl, (List.append_nil _).symm, (List.append_nil _).symm⟩
  obtain ⟨x, o₁, hx, hsees⟩ := hacquire
  rw [hx] at h
  cases x with
  | error e =>
    cases h
    exact .inl ⟨e, rfl, hsees⟩
  | ok _ =>
    have hbody := Program.replays_run hS p hp { db.toConnection with depth := 0 } hdb
    obtain ⟨l, es, hscope, hlog⟩ :=
      scopeLog_of_exec hS.rollback (fun hS => hS.commit) hbody h
    exact .inr ⟨l, es, hsees.trans hscope, hlog⟩

/-- Transactions are nested atomic scopes. Whatever program runs in a transaction, its log can be
replayed on a store of no open scope and leaves none open; and the store then has, besides what it
had, those calls of the program that only scopes that succeeded are around. -/
theorem replay_transaction (hback : S.RollsBack) (hclose : S.Closes) {p : Program α}
    (hp : p.Ordinary R) {db : Database (Observed σ)} (hdb : db.session = S.observed) {st : σ}
    {r : Except Error α} {o : Observed σ} (h : (db.transaction p.run).exec ⟨st, [], []⟩ = (r, o))
    (data : List Call) :
    Store.replay R o.log ⟨data, []⟩ =
      some ⟨data ++ Event.kept [.scope r.isOk o.history], []⟩ := by
  rcases transactionLog hback hp hdb h with ⟨e, rfl, hsees⟩ | ⟨l, es, hsees, hlog⟩
  · have hkept : Event.kept [.scope (Except.error e : Except Error α).isOk o.history] = [] := rfl
    rw [hsees.log, hkept, List.append_nil, List.append_nil]
    rfl
  · rw [hsees.log, hsees.history]
    exact hlog.replay hclose rfl

end Database

namespace Blog

/-- A scope that gives up after its first statement and one that goes on after a failure, both inside
of a transaction that has written before. -/
def nestedInserts : Program Unit :=
  .ask (.run "insert into posts" []) fun _ =>
  .scope (.ask (.run "insert into tags" []) fun _ => .done (α := Unit) (.error .rollback)) fun _ =>
  .scope (.ask (.run "insert into users" []) fun _ =>
    .ask (.run "insert into logs" []) fun _ => .done (.ok ())) fun r =>
  .done r

def insertInto (table : String) : Call :=
  ⟨.run, s!"insert into {table}", []⟩

/-- What is seen of it on a session that does not insert into logs. -/
def nestedInserted : Observed Unit where
  state := ()
  log := [.batch "begin deferred" true, ⟨insertInto "posts", true⟩,
    .batch "savepoint sp1" true, ⟨insertInto "tags", true⟩,
    .batch "rollback to sp1; release sp1" true,
    .batch "savepoint sp1" true, ⟨insertInto "users", true⟩, ⟨insertInto "logs", false⟩,
    .batch "release sp1" true, .batch "commit" true]
  history := [.wrote (insertInto "posts"), .scope false [.wrote (insertInto "tags")],
    .scope true [.wrote (insertInto "users")]]

theorem exec_nestedInserts :
    (Database.transaction ⟨(Session.failing "insert into logs").observed, schema⟩
      nestedInserts.run).exec ⟨(), [], []⟩ = (.ok (), nestedInserted) := by
  rfl

end Blog

theorem Database.replay_transaction_nested :
    Store.replay .plain Blog.nestedInserted.log ⟨[], []⟩ =
      some ⟨[Blog.insertInto "posts", Blog.insertInto "users"], []⟩ := by
  have hback : (Session.failing "insert into logs").RollsBack := {
    rollback := Session.accepts_failing rfl
    undo := fun n => Session.accepts_failing (by simp only [String.toList_append]; rfl) }
  have hclose : (Session.failing "insert into logs").Closes := {
    commit := Session.accepts_failing rfl
    release := fun n => Session.accepts_failing (by simp only [String.toList_append]; rfl) }
  have hordinary : Blog.nestedInserts.Ordinary .plain := by
    simp +decide [Blog.nestedInserts, Program.Ordinary]
  exact replay_transaction hback hclose hordinary rfl Blog.exec_nestedInserts []

end Tabula
