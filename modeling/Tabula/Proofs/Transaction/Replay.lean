import Tabula.Proofs.Transaction.Program

/-!
# Replaying what a program has said

On a session that never fails to roll back, the log of a program can be replayed on any store. It
leaves the scopes alone that were open before, and leaves no others open if the session never fails
to close one either; then the store has what the program has kept. This is shown for a scope first,
whatever has been shown for its body, and for programs by induction.
-/

namespace Tabula

open Transaction (savepointName ScopeRun)

variable {σ α β : Type}

/-! ## Sessions -/

namespace Session

def Accepts (S : Session σ) (sql : String) : Prop :=
  ∀ st, ((S.batch sql).exec st).1 = .ok ()

structure RollsBack (S : Session σ) : Prop where
  rollback : S.Accepts "rollback"
  undo : ∀ n, S.Accepts s!"rollback to {savepointName n}; release {savepointName n}"

structure Closes (S : Session σ) : Prop where
  commit : S.Accepts "commit"
  release : ∀ n, S.Accepts s!"release {savepointName n}"

/-- A session that answers everything but the texts with a certain start. -/
def failing (start : String) : Session Unit :=
  let answer {α : Type} (sql : String) (a : α) : Action Unit α :=
    if start.toList.isPrefixOf sql.toList then throw (.transaction s!"{sql} failed") else pure a
  { run := fun sql _ => answer sql {}
    get := fun sql _ => answer sql none
    all := fun sql _ => answer sql []
    batch := fun sql => answer sql () }

theorem accepts_failing {start sql : String} (h : start.toList.isPrefixOf sql.toList = false) :
    (failing start).Accepts sql := by
  intro st
  rw [failing]
  dsimp only
  rw [h]
  rfl

end Session

/-! ## What is seen of a call -/

namespace Observed

/-- Entries and events have been added to what was seen. -/
structure Sees (l : List Entry) (es : List Event) (o o' : Observed σ) : Prop where
  log : o'.log = o.log ++ l
  history : o'.history = o.history ++ es

namespace Sees

variable {l l' : List Entry} {es es' : List Event} {o o' o'' : Observed σ}

theorem refl (o : Observed σ) : Sees [] [] o o :=
  ⟨(List.append_nil _).symm, (List.append_nil _).symm⟩

theorem trans (h : Sees l es o o') (h' : Sees l' es' o' o'') :
    Sees (l ++ l') (es ++ es') o o'' :=
  ⟨by rw [h'.log, h.log, List.append_assoc], by rw [h'.history, h.history, List.append_assoc]⟩

end Sees

theorem exec_note (e : Event) (o : Observed σ) :
    (note e).exec o = (.ok (), { o with history := o.history ++ [e] }) := rfl

theorem exec_exchange (history : List Event) (o : Observed σ) :
    (exchange history).exec o = (.ok o.history, { o with history := history }) := rfl

theorem sees_call {c : Call} {a : Action σ α} {o o' : Observed σ} {r : Except Error α}
    (h : (call c a).exec o = (r, o')) :
    Sees [⟨c, r.isOk⟩] [] o o' ∧ (a.exec o.state).1 = r := by
  cases h
  exact ⟨⟨rfl, (List.append_nil _).symm⟩, rfl⟩

theorem sees_perform {S : Session σ} {c : Connection (Observed σ)} (hc : c.session = S.observed)
    {statement : Statement β} {o o' : Observed σ} {r : Except Error β}
    (h : (statement.perform c).exec o = (r, o')) : Sees [⟨statement.call, r.isOk⟩] [] o o' := by
  obtain ⟨session, schema⟩ := c
  subst hc
  cases statement with
  | run sql params => exact (sees_call h).1
  | get sql params => exact (sees_call h).1
  | all sql params => exact (sees_call h).1
  | batch sql => exact (sees_call h).1

end Observed

open Observed (Sees sees_call sees_perform)

/-! ## Logs that can be replayed -/

/-- The entries can be replayed on every store. They leave open what was open, and of new scopes
only savepoints deeper than `depth`; if the session closes scopes they leave no scope open, and have
written what the events have kept. -/
def ControlReader.Replays (R : ControlReader) (S : Session σ) (depth : Nat) (l : List Entry)
    (es : List Event) : Prop :=
  ∀ s : Store, ∃ s', s.replay R l = some s' ∧ s.Grows depth s' ∧
    (S.Closes → s' = s.write (Event.kept es))

section

variable {R : ControlReader} {S : Session σ} {depth : Nat} {l l' : List Entry} {es es' : List Event}

namespace ControlReader.Replays

theorem nil : R.Replays S depth [] [] := by
  intro s
  refine ⟨s, rfl, .refl depth s, fun _ => ?_⟩
  simp [Store.write, Event.kept]

theorem append (h : R.Replays S depth l es) (h' : R.Replays S depth l' es') :
    R.Replays S depth (l ++ l') (es ++ es') := by
  intro s
  obtain ⟨s₁, hreplay, hgrows, hwrites⟩ := h s
  obtain ⟨s₂, hreplay', hgrows', hwrites'⟩ := h' s₁
  refine ⟨s₂, ?_, hgrows.trans hgrows', fun hS => ?_⟩
  · rw [Store.replay_append, hreplay, Option.bind_some, hreplay']
  · rw [hwrites' hS, hwrites hS, Event.kept_append]
    simp [Store.write]

theorem failed (c : Call) : R.Replays S depth [⟨c, false⟩] [] := by
  intro s
  exact (nil : R.Replays S depth [] []) s

theorem wrote {c : Call} (hc : R.controls c.sql = []) :
    R.Replays S depth [⟨c, true⟩] [.wrote c] := by
  intro s
  refine ⟨s.write [c], Store.replay_wrote hc [], ⟨[], rfl, by simp⟩, fun _ => ?_⟩
  simp [Event.kept, Event.keptOf]

end ControlReader.Replays

/-! ## Scopes -/

/-- The logs of a scope, by whether it succeeds and what its body has done. -/
inductive ScopeLog (R : ControlReader) (S : Session σ) (depth : Nat)
    (opening closing undoing : String) : Bool → List Entry → List Event → Prop where
  | unopened : ScopeLog R S depth opening closing undoing false [.batch opening false] []
  | closed {l : List Entry} {es : List Event} (hbody : R.Replays S depth l es) :
    ScopeLog R S depth opening closing undoing true
      (.batch opening true :: (l ++ [.batch closing true])) es
  | unclosed {l : List Entry} {es : List Event} (hS : ¬S.Closes) (hbody : R.Replays S depth l es) :
    ScopeLog R S depth opening closing undoing false
      (.batch opening true :: (l ++ [.batch closing false])) es
  | undone {l : List Entry} {es : List Event} (hbody : R.Replays S depth l es) :
    ScopeLog R S depth opening closing undoing false
      (.batch opening true :: (l ++ [.batch undoing true])) es

/-- Every run of a scope has one of these logs. -/
theorem scopeLog_of_exec {opening closing undoing : String} (hundoing : S.Accepts undoing)
    (hclosing : S.Closes → S.Accepts closing) {body : Action (Observed σ) α}
    (hbody : ∀ o r o', body.exec o = (r, o') →
      ∃ l es, Sees l es o o' ∧ R.Replays S depth l es)
    {o o' : Observed σ} {r : Except Error α}
    (h : (Transaction.scope S.observed opening closing undoing body).exec o = (r, o')) :
    ∃ l es, Sees l es o o' ∧ ScopeLog R S depth opening closing undoing r.isOk l es := by
  cases Transaction.scopeRun_of_exec h with
  | unopened hopen => exact ⟨_, _, (sees_call hopen).1, .unopened⟩
  | closed hopen hrun hclose =>
    obtain ⟨l, es, hsees, hreplays⟩ := hbody _ _ _ hrun
    have hall := ((sees_call hopen).1.trans hsees).trans (sees_call hclose).1
    rw [List.append_nil] at hall
    exact ⟨_, _, hall, .closed hreplays⟩
  | unclosed hopen hrun hclose =>
    obtain ⟨l, es, hsees, hreplays⟩ := hbody _ _ _ hrun
    obtain ⟨hlast, hanswer⟩ := sees_call hclose
    have hall := ((sees_call hopen).1.trans hsees).trans hlast
    rw [List.append_nil] at hall
    refine ⟨_, _, hall, .unclosed (fun hS => ?_) hreplays⟩
    rw [hclosing hS] at hanswer
    cases hanswer
  | undone hopen hrun hundo =>
    obtain ⟨l, es, hsees, hreplays⟩ := hbody _ _ _ hrun
    obtain ⟨hlast, hanswer⟩ := sees_call hundo
    rw [hundoing] at hanswer
    subst hanswer
    have hall := ((sees_call hopen).1.trans hsees).trans hlast
    rw [List.append_nil] at hall
    exact ⟨_, _, hall, .undone hreplays⟩

abbrev SavepointLog (R : ControlReader) (S : Session σ) (n : Nat) :=
  ScopeLog R S n s!"savepoint {savepointName n}" s!"release {savepointName n}"
    s!"rollback to {savepointName n}; release {savepointName n}"

/-- A savepoint that is undone leaves the store as it was. -/
theorem replay_undone {s : Store} (hbody : R.Replays S (depth + 1) l es) :
    s.replay R (.batch s!"savepoint {savepointName (depth + 1)}" true :: (l ++ [.batch
      s!"rollback to {savepointName (depth + 1)}; release {savepointName (depth + 1)}" true])) =
      some s := by
  obtain ⟨s₁, hreplay, hgrows, -⟩ := hbody (s.push (depth + 1))
  rw [Store.replay_savepoint, Store.replay_append, hreplay, Option.bind_some,
    Store.replay_undo hgrows.innermost?_push rfl]

theorem SavepointLog.replays {ok : Bool} (h : SavepointLog R S (depth + 1) ok l es) :
    R.Replays S depth l [.scope ok es] := by
  intro s
  cases h with
  | unopened =>
    refine ⟨s, rfl, .refl depth s, fun _ => ?_⟩
    simp [Store.write, Event.kept, Event.keptOf]
  | closed hbody =>
    obtain ⟨s₁, hreplay, hgrows, hwrites⟩ := hbody (s.push (depth + 1))
    refine ⟨⟨s₁.data, s.scopes⟩, ?_, ⟨[], rfl, by simp⟩, fun hS => ?_⟩
    · rw [Store.replay_savepoint, Store.replay_append, hreplay, Option.bind_some,
        Store.replay_release hgrows.innermost?_push]
    · rw [hwrites hS]
      simp [Store.push, Store.write, Event.kept, Event.keptOf]
  | unclosed hS hbody =>
    -- The savepoint itself is left open, below what its body has left open.
    obtain ⟨s₁, hreplay, hgrows, -⟩ := hbody (s.push (depth + 1))
    refine ⟨s₁, ?_, ?_, fun hS' => absurd hS' hS⟩
    · rw [Store.replay_savepoint, Store.replay_append, hreplay]
      rfl
    · obtain ⟨left, hleft, hnames⟩ := hgrows
      refine ⟨left ++ [⟨some (savepointName (depth + 1)), s.data⟩], ?_, ?_⟩
      · rw [hleft, List.append_assoc]
        rfl
      · intro o ho
        rcases List.mem_append.1 ho with ho | ho
        · obtain ⟨n, hn, hname⟩ := hnames o ho
          exact ⟨n, by omega, hname⟩
        · exact ⟨depth + 1, by omega, List.mem_singleton.1 ho ▸ rfl⟩
  | undone hbody =>
    refine ⟨s, replay_undone hbody, .refl depth s, fun _ => ?_⟩
    simp [Store.write, Event.kept, Event.keptOf]

end

/-! ## Programs -/

section

variable {R : ControlReader} {S : Session σ}

/-- A savepoint in a transaction has the log of a savepoint one deeper. -/
theorem Transaction.savepointLog (hS : S.RollsBack) {t : Transaction (Observed σ)}
    (ht : t.session = S.observed) {body : Transaction (Observed σ) → Action (Observed σ) β}
    (hbody : ∀ o r o', (body { t with depth := t.depth + 1 }).exec o = (r, o') →
      ∃ l es, Sees l es o o' ∧ R.Replays S (t.depth + 1) l es)
    {o o' : Observed σ} {r : Except Error β} (h : (t.transaction body).exec o = (r, o')) :
    ∃ l es, Sees l es o o' ∧ SavepointLog R S (t.depth + 1) r.isOk l es := by
  rw [transaction, ht] at h
  exact scopeLog_of_exec (hS.undo (t.depth + 1)) (fun hS => hS.release (t.depth + 1)) hbody h

namespace Program

/-! The induction is on the program. What it asks of the store adds one entry, and a scope inside of
it adds the log of a savepoint, whose body is one deeper; the rest goes on from there. -/

theorem replays_run (hS : S.RollsBack) : {α : Type} → (p : Program α) → p.Ordinary R →
    (t : Transaction (Observed σ)) → t.session = S.observed → (o : Observed σ) →
    (r : Except Error α) → (o' : Observed σ) → (p.run t).exec o = (r, o') →
    ∃ l es, Sees l es o o' ∧ R.Replays S t.depth l es
  | _, .done result, _, t, _, o, r, o', h => by
    cases h
    exact ⟨[], [], .refl o, .nil⟩
  | _, .ask statement next, hp, t, ht, o, r, o', h => by
    obtain ⟨hordinary, hnext⟩ := hp
    rw [run, Action.exec_bind, Action.exec_attempt] at h
    cases hperform : (statement.perform t.toConnection).exec o with
    | mk answer o₁ =>
    have hsees := sees_perform ht hperform
    rw [hperform] at h
    cases answer with
    | error e =>
      obtain ⟨l, es, hrest, hreplays⟩ := replays_run hS (next _) (hnext _) t ht o₁ r o' h
      exact ⟨_, _, hsees.trans hrest, (ControlReader.Replays.failed statement.call).append hreplays⟩
    | ok b =>
      have hnote : Sees [] [.wrote statement.call] o₁
          { o₁ with history := o₁.history ++ [.wrote statement.call] } :=
        ⟨(List.append_nil _).symm, rfl⟩
      obtain ⟨l, es, hrest, hreplays⟩ := replays_run hS (next _) (hnext _) t ht _ r o' h
      exact ⟨_, _, (hsees.trans hnote).trans hrest,
        (ControlReader.Replays.wrote hordinary).append hreplays⟩
  | _, .scope body next, hp, t, ht, o, r, o', h => by
    obtain ⟨hbody, hnext⟩ := hp
    rw [run, Action.exec_bind, Observed.exec_exchange] at h
    cases hscope : (t.transaction body.run).exec { o with history := [] } with
    | mk answer o₁ =>
    simp only [Action.exec_bind, Action.exec_attempt, Observed.exec_exchange, Observed.exec_note,
      hscope] at h
    obtain ⟨l, es, hsees, hlog⟩ := Transaction.savepointLog hS ht
      (replays_run hS body hbody { t with depth := t.depth + 1 } ht) hscope
    have hscopeSees : Sees l [.scope answer.isOk o₁.history] o
        { o₁ with history := o.history ++ [.scope answer.isOk o₁.history] } :=
      ⟨hsees.log, rfl⟩
    obtain rfl : o₁.history = es := hsees.history
    obtain ⟨l', es', hrest, hreplays⟩ := replays_run hS (next answer) (hnext answer) t ht _ r o' h
    exact ⟨_, _, hscopeSees.trans hrest, hlog.replays.append hreplays⟩

end Program

end

end Tabula
