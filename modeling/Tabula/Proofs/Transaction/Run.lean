import Tabula.Database

/-!
# Running transactions

An action takes a state of the store to an outcome and the next state. Taken apart, a scope has one
of four runs: it may fail to open, fail to close, be undone, or close.
-/

namespace Tabula

variable {σ α β : Type}

namespace Action

/-- The outcome of an action that starts in a state, and the state that it leaves. -/
def exec (a : Action σ α) (st : σ) : Except Error α × σ :=
  a.run.run st

@[simp] theorem exec_pure (a : α) (st : σ) : (pure a : Action σ α).exec st = (.ok a, st) := rfl

@[simp] theorem exec_attempt (a : Action σ α) (st : σ) :
    a.attempt.exec st = (.ok (a.exec st).1, (a.exec st).2) := rfl

theorem exec_bind (a : Action σ α) (f : α → Action σ β) (st : σ) :
    (a >>= f).exec st =
      match a.exec st with
      | (.ok x, st₁) => (f x).exec st₁
      | (.error e, st₁) => (.error e, st₁) := by
  rw [exec, exec, ExceptT.run_bind, StateT.run_bind]
  obtain ⟨outcome, st₁⟩ := a.run.run st
  cases outcome with
  | error e => rfl
  | ok x => rfl

end Action

namespace Transaction

/-- The runs of a scope. -/
inductive ScopeRun (session : Session σ) (opening closing undoing : String) (body : Action σ α)
    (st : σ) : Except Error α → σ → Prop where
  | unopened {e : Error} {st₁ : σ} (hopen : (session.batch opening).exec st = (.error e, st₁)) :
    ScopeRun session opening closing undoing body st (.error e) st₁
  | closed {a : α} {st₁ st₂ st₃ : σ} (hopen : (session.batch opening).exec st = (.ok (), st₁))
    (hbody : body.exec st₁ = (.ok a, st₂)) (hclose : (session.batch closing).exec st₂ = (.ok (), st₃)) :
    ScopeRun session opening closing undoing body st (.ok a) st₃
  | unclosed {a : α} {e : Error} {st₁ st₂ st₃ : σ}
    (hopen : (session.batch opening).exec st = (.ok (), st₁)) (hbody : body.exec st₁ = (.ok a, st₂))
    (hclose : (session.batch closing).exec st₂ = (.error e, st₃)) :
    ScopeRun session opening closing undoing body st (.error e) st₃
  | undone {e : Error} {st₁ st₂ st₃ : σ} {outcome : Except Error Unit}
    (hopen : (session.batch opening).exec st = (.ok (), st₁))
    (hbody : body.exec st₁ = (.error e, st₂))
    (hundo : (session.batch undoing).exec st₂ = (outcome, st₃)) :
    ScopeRun session opening closing undoing body st (.error e) st₃

theorem scopeRun_of_exec {session : Session σ} {opening closing undoing : String}
    {body : Action σ α} {st st' : σ} {r : Except Error α}
    (h : (scope session opening closing undoing body).exec st = (r, st')) :
    ScopeRun session opening closing undoing body st r st' := by
  rw [scope, Action.exec_bind] at h
  cases hopen : (session.batch opening).exec st with
  | mk outcome st₁ =>
  rw [hopen] at h
  cases outcome with
  | error e =>
    cases h
    exact .unopened hopen
  | ok _ =>
  simp only [Action.exec_bind, Action.exec_attempt] at h
  cases hbody : body.exec st₁ with
  | mk outcome st₂ =>
  rw [hbody] at h
  cases outcome with
  | error e =>
    cases h
    exact .undone hopen hbody rfl
  | ok a =>
  simp only [Action.exec_bind, Action.exec_pure] at h
  cases hclose : (session.batch closing).exec st₂ with
  | mk outcome st₃ =>
  rw [hclose] at h
  cases outcome with
  | error e =>
    cases h
    exact .unclosed hopen hbody hclose
  | ok _ =>
    cases h
    exact .closed hopen hbody hclose

end Transaction

end Tabula
