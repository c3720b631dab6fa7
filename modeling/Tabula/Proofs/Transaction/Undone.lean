import Tabula.Proofs.Transaction.Atomic

/-!
# What a failed scope leaves behind

A scope reports failure if it cannot be opened, if its body fails, or if it cannot be closed. In the
first two cases nothing of it is left. In the last one it stays open with all that has been written
in it, since only a body that fails is rolled back; whoever closes a scope around it then keeps what
the failed scope has written.
-/

namespace Tabula

open Observed (Sees)
open Transaction (savepointName)

variable {σ α : Type} {R : ControlReader} {S : Session σ} {l : List Entry} {es : List Event}

/-- Nothing is left of a scope with this log: it has not been opened or has been rolled back, and the
store is what it was. -/
structure LeavesNothing (R : ControlReader) (opening undoing : String) (s : Store)
    (l : List Entry) : Prop where
  last : l = [] ∨ l = [.batch opening false] ∨ l.getLast? = some (.batch undoing true)
  replay : s.replay R l = some s

/-- A scope with this log could not be closed and is still open. -/
structure LeavesOpen (R : ControlReader) (closing : String) (name : Option String) (s : Store)
    (l : List Entry) : Prop where
  last : l.getLast? = some (.batch closing false)
  replay : ∃ s', s.replay R l = some s' ∧ ⟨name, s.data⟩ ∈ s'.scopes

theorem getLast?_scope (opening closing : Entry) (l : List Entry) :
    (opening :: (l ++ [closing])).getLast? = some closing := by
  rw [← List.cons_append, List.getLast?_append]
  rfl

theorem SavepointLog.of_failed {depth : Nat} (h : SavepointLog R S (depth + 1) false l es) :
    (∀ s, LeavesNothing R s!"savepoint {savepointName (depth + 1)}"
      s!"rollback to {savepointName (depth + 1)}; release {savepointName (depth + 1)}" s l) ∨
    ∀ s, LeavesOpen R s!"release {savepointName (depth + 1)}" (some (savepointName (depth + 1))) s
      l := by
  cases h with
  | unopened => exact .inl fun s => ⟨.inr (.inl rfl), rfl⟩
  | undone hbody =>
    exact .inl fun s => ⟨.inr (.inr (getLast?_scope _ _ _)), replay_undone hbody⟩
  | unclosed hS hbody =>
    refine .inr fun s => ⟨getLast?_scope _ _ _, ?_⟩
    obtain ⟨s₁, hreplay, ⟨left, hleft, -⟩, -⟩ := hbody (s.push (depth + 1))
    refine ⟨s₁, ?_, ?_⟩
    · rw [Store.replay_savepoint, Store.replay_append, hreplay]
      rfl
    · rw [hleft]
      exact List.mem_append_right left List.mem_cons_self

theorem TransactionLog.of_failed (h : TransactionLog R S false l es) :
    (∀ s, s.scopes = [] → LeavesNothing R "begin deferred" "rollback" s l) ∨
    ∀ s, s.scopes = [] → LeavesOpen R "commit" none s l := by
  cases h with
  | unopened => exact .inl fun s _ => ⟨.inr (.inl rfl), rfl⟩
  | undone hbody =>
    exact .inl fun s hs => ⟨.inr (.inr (getLast?_scope _ _ _)), replay_rolledBack hs hbody⟩
  | unclosed hS hbody =>
    refine .inr fun s hs => ⟨getLast?_scope _ _ _, ?_⟩
    obtain ⟨s₁, hreplay, ⟨left, hleft, -⟩, -⟩ := hbody s.begun
    refine ⟨s₁, ?_, ?_⟩
    · rw [Store.replay_begin hs, Store.replay_append, hreplay]
      rfl
    · rw [hleft]
      exact List.mem_append_right left List.mem_cons_self

namespace Transaction

/-- A scope that reports failure leaves nothing behind unless it is closing it that has failed; then
it is still open. This holds of savepoints at every depth and of transactions. -/
theorem undone_or_open (hS : S.RollsBack) {p : Program α} (hp : p.Ordinary R) :
    (∀ t : Transaction (Observed σ), t.session = S.observed →
      ∀ o e o', (t.transaction p.run).exec o = (.error e, o') → ∃ l, o'.log = o.log ++ l ∧
        ((∀ s, LeavesNothing R s!"savepoint {savepointName (t.depth + 1)}"
          s!"rollback to {savepointName (t.depth + 1)}; release {savepointName (t.depth + 1)}" s l) ∨
        ∀ s, LeavesOpen R s!"release {savepointName (t.depth + 1)}"
          (some (savepointName (t.depth + 1))) s l)) ∧
    ∀ db : Database (Observed σ), db.session = S.observed →
      ∀ o e o', (db.transaction p.run).exec o = (.error e, o') → ∃ l, o'.log = o.log ++ l ∧
        ((∀ s, s.scopes = [] → LeavesNothing R "begin deferred" "rollback" s l) ∨
        ∀ s, s.scopes = [] → LeavesOpen R "commit" none s l) := by
  constructor
  · intro t ht o e o' h
    obtain ⟨l, es, hsees, hlog⟩ := savepointLog hS ht
      (Program.replays_run hS p hp { t with depth := t.depth + 1 } ht) h
    exact ⟨l, hsees.log, hlog.of_failed⟩
  · intro db hdb o e o' h
    rcases Database.transactionLog hS hp hdb h with ⟨_, -, hsees⟩ | ⟨l, es, hsees, hlog⟩
    · exact ⟨[], hsees.log, .inl fun s _ => ⟨.inl rfl, rfl⟩⟩
    · exact ⟨l, hsees.log, hlog.of_failed⟩

end Transaction

namespace Blog

theorem rollsBack_failing_release : (Session.failing "release").RollsBack where
  rollback := Session.accepts_failing rfl
  undo := fun n => Session.accepts_failing (by simp only [String.toList_append]; rfl)

/-- Gives up after an insert. -/
def givesUp : Program Unit :=
  .ask (.run "insert into posts" []) fun _ => .done (.error .rollback)

/-- What is seen of it in a savepoint. -/
def gaveUp : Observed Unit where
  state := ()
  log := [.batch "savepoint sp1" true, ⟨insertInto "posts", true⟩,
    .batch "rollback to sp1; release sp1" true]
  history := [.wrote (insertInto "posts")]

end Blog

theorem Transaction.undone_or_open_givesUp :
    LeavesNothing .plain "savepoint sp1" "rollback to sp1; release sp1"
      ⟨[Blog.insertInto "users"], []⟩ Blog.gaveUp.log := by
  have hordinary : Blog.givesUp.Ordinary .plain := by
    simp +decide [Blog.givesUp, Program.Ordinary]
  obtain ⟨hsavepoint, -⟩ := undone_or_open Blog.rollsBack_failing_release hordinary
  obtain ⟨l, hlog, hleaves⟩ := hsavepoint
    ⟨⟨(Session.failing "release").observed, Blog.schema⟩, 0⟩ rfl ⟨(), [], []⟩ .rollback Blog.gaveUp rfl
  obtain rfl : Blog.gaveUp.log = l := hlog
  rcases hleaves with hnothing | hopen
  · exact hnothing ⟨[Blog.insertInto "users"], []⟩
  · exact absurd (hopen ⟨[], []⟩).last (by decide)

namespace Blog

/-- Inserts a post in a scope of its own and does not mind what becomes of it. -/
def carelessInsert : Program Unit :=
  .scope (.ask (.run "insert into posts" []) fun _ => .done (α := Unit) (.ok ())) fun _ =>
  .done (.ok ())

/-- What is seen of it on a session that releases no savepoint. -/
def carelesslyInserted : Observed Unit where
  state := ()
  log := [.batch "begin deferred" true, .batch "savepoint sp1" true, ⟨insertInto "posts", true⟩,
    .batch "release sp1" false, .batch "commit" true]
  history := [.scope false [.wrote (insertInto "posts")]]

end Blog

/-- A post that has been inserted in a scope that has failed is there in the end. -/
theorem Transaction.kept_of_failed_release :
    (Session.failing "release").RollsBack ∧
      (Database.transaction ⟨(Session.failing "release").observed, Blog.schema⟩
        Blog.carelessInsert.run).exec ⟨(), [], []⟩ = (.ok (), Blog.carelesslyInserted) ∧
      Blog.carelesslyInserted.history = [.scope false [.wrote (Blog.insertInto "posts")]] ∧
      Store.replay .plain Blog.carelesslyInserted.log ⟨[], []⟩ =
        some ⟨[Blog.insertInto "posts"], []⟩ :=
  ⟨Blog.rollsBack_failing_release, rfl, rfl, by decide⟩

end Tabula
