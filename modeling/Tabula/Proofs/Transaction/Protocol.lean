import Tabula.Proofs.Schema.Assembled
import Tabula.Proofs.Transaction.Replay

/-!
# What scopes say to their session

A program is run on a traced session, which leaves a mark for each answer that it gives, failures
with their errors, and marks where a body begins and where it is over. However the session answers,
each scope says its own two texts and nothing else: the one that opens it, and behind all that its
body says the one that ends it, for a body that has begun.
-/

namespace Tabula

open Transaction (savepointName)

variable {σ α β : Type}

/-! ## Traces -/

/-- What is seen of a run, in the order in which it happens. -/
inductive Mark where
  | acquired (failure : Option Error)
  | said (call : Call) (failure : Option Error)
  | entered (depth : Nat)
  | left (failure : Option Error)
deriving DecidableEq

def Mark.batch (sql : String) (failure : Option Error) : Mark :=
  .said ⟨.batch, sql, []⟩ failure

/-- Why there is no result. -/
def failureOf : Except Error α → Option Error
  | .ok _ => none
  | .error e => some e

/-- The state of a session with the marks of its run, the oldest first. -/
structure Traced (σ : Type) where
  state : σ
  marks : List Mark

namespace Traced

def note (m : Mark) : Action (Traced σ) Unit :=
  modify fun o => { o with marks := o.marks ++ [m] }

/-- Runs an action and marks how it has come out. -/
def watch (mark : Option Error → Mark) (a : Action σ α) : Action (Traced σ) α :=
  ExceptT.mk fun o =>
    let (result, st) := a.run.run o.state
    (result, ⟨st, o.marks ++ [mark (failureOf result)]⟩)

/-- The body of a transaction with a mark before it and one behind it. -/
def callback (body : Transaction (Traced σ) → Action (Traced σ) α) (t : Transaction (Traced σ)) :
    Action (Traced σ) α := do
  note (.entered t.depth)
  let r ← (body t).attempt
  note (.left (failureOf r))
  .ofExcept r

end Traced

def Session.traced (s : Session σ) : Session (Traced σ) where
  run sql params := Traced.watch (.said ⟨.run, sql, params⟩) (s.run sql params)
  get sql params := Traced.watch (.said ⟨.get, sql, params⟩) (s.get sql params)
  all sql params := Traced.watch (.said ⟨.all, sql, params⟩) (s.all sql params)
  batch sql := Traced.watch (.batch sql) (s.batch sql)
  acquire := Traced.watch .acquired s.acquire

namespace Program

/-- Runs a program in a transaction. -/
def steps {α : Type} : Program α → Transaction (Traced σ) → Action (Traced σ) α
  | done result, _ => .ofExcept result
  | ask statement next, t => do
    let r ← (statement.perform t.toConnection).attempt
    (next r).steps t
  | scope body next, t => do
    let r ← (t.transaction (Traced.callback body.steps)).attempt
    (next r).steps t

/-- The program as the body of a transaction. -/
def traced (p : Program α) : Transaction (Traced σ) → Action (Traced σ) α :=
  Traced.callback p.steps

end Program

/-! ## What scopes and programs say -/

namespace Transaction

/-- The text that opens a scope inside of `n` others. -/
def openingText : Nat → String
  | 0 => "begin deferred"
  | n + 1 => s!"savepoint {savepointName (n + 1)}"

/-- The text that ends a scope inside of `n` others, by the failure of its body. -/
def endingText : Nat → Option Error → String
  | 0, none => "commit"
  | 0, some _ => "rollback"
  | n + 1, none => s!"release {savepointName (n + 1)}"
  | n + 1, some _ => s!"rollback to {savepointName (n + 1)}; release {savepointName (n + 1)}"

/-- The result of a scope with an open body: the error of the body if there is one, however the
scope has ended, and its result only if the scope has ended well. -/
def concluded : Except Error α → Option Error → Except Error α
  | .error e, _ => .error e
  | .ok _, some e => .error e
  | .ok a, none => .ok a

/-- The marks and the results of a scope inside of `n` others, by those of its body. -/
inductive Says (n : Nat) (body : List Mark → Except Error α → Prop) :
    List Mark → Except Error α → Prop
  | unopened (e : Error) : Says n body [.batch (openingText n) (some e)] (.error e)
  | ended {inside : List Mark} {r : Except Error α} (hbody : body inside r)
    (failure : Option Error) :
    Says n body
      (.batch (openingText n) none :: .entered n ::
        (inside ++ [.left (failureOf r), .batch (endingText n (failureOf r)) failure]))
      (concluded r failure)

end Transaction

/-- The marks and the results of a program that runs inside of `n` scopes. -/
def Program.Says {α : Type} : Program α → Nat → List Mark → Except Error α → Prop
  | done result, _, l, r => l = [] ∧ r = result
  | ask statement next, n, l, r =>
    ∃ answer rest, l = .said statement.call (failureOf answer) :: rest ∧ (next answer).Says n rest r
  | scope body next, n, l, r =>
    ∃ answer inside rest, l = inside ++ rest ∧
      Transaction.Says n (body.Says (n + 1)) inside answer ∧ (next answer).Says n rest r

/-! ## What a run says -/

namespace Traced

open Transaction (openingText endingText concluded Says)

/-- However the action comes out, it adds marks behind those that are there. -/
def Adds (a : Action (Traced σ) α) (post : List Mark → Except Error α → Prop) : Prop :=
  ∀ o r o', a.exec o = (r, o') → ∃ l, o'.marks = o.marks ++ l ∧ post l r

theorem adds_watch (mark : Option Error → Mark) (a : Action σ α) :
    Adds (watch mark a) fun l r => l = [mark (failureOf r)] := by
  intro o r o' h
  cases h
  exact ⟨_, rfl, rfl⟩

theorem adds_perform {S : Session σ} {c : Connection (Traced σ)} (hc : c.session = S.traced)
    (statement : Statement β) :
    Adds (statement.perform c) fun l r => l = [.said statement.call (failureOf r)] := by
  obtain ⟨session, schema⟩ := c
  subst hc
  cases statement with
  | run sql params => exact adds_watch _ _
  | get sql params => exact adds_watch _ _
  | all sql params => exact adds_watch _ _
  | batch sql => exact adds_watch _ _

variable {post : List Mark → Except Error α → Prop}

theorem Adds.attempt_bind {a : Action (Traced σ) α} (ha : Adds a post)
    {f : Except Error α → Action (Traced σ) β}
    {after : Except Error α → List Mark → Except Error β → Prop} (hf : ∀ r, Adds (f r) (after r)) :
    Adds (a.attempt >>= f) fun l r =>
      ∃ answer inside rest, l = inside ++ rest ∧ post inside answer ∧ after answer rest r := by
  intro o r o' h
  simp only [Action.exec_bind, Action.exec_attempt] at h
  obtain ⟨inside, hinside, hspoke⟩ := ha o (a.exec o).1 (a.exec o).2 rfl
  obtain ⟨rest, hrest, hafter⟩ := hf _ _ _ _ h
  exact ⟨inside ++ rest, by rw [hrest, hinside, List.append_assoc], _, inside, rest, rfl, hspoke,
    hafter⟩

theorem exec_callback (body : Transaction (Traced σ) → Action (Traced σ) α)
    (t : Transaction (Traced σ)) (o : Traced σ) :
    (callback body t).exec o =
      let (r, o₁) := (body t).exec { o with marks := o.marks ++ [.entered t.depth] }
      (r, { o₁ with marks := o₁.marks ++ [.left (failureOf r)] }) := by
  have hentered : (note (.entered t.depth)).exec o =
      (.ok (), { o with marks := o.marks ++ [.entered t.depth] }) := rfl
  simp only [callback, Action.exec_bind, hentered, Action.exec_attempt]
  rfl

theorem Adds.callback {body : Transaction (Traced σ) → Action (Traced σ) α}
    {t : Transaction (Traced σ)} (h : Adds (body t) post) :
    Adds (callback body t) fun l r => ∃ inside, post inside r ∧
      l = .entered t.depth :: (inside ++ [.left (failureOf r)]) := by
  intro o r o' hrun
  rw [exec_callback] at hrun
  obtain ⟨inside, hinside, hspoke⟩ := h _ _ _ rfl
  cases hrun
  exact ⟨_, by rw [hinside]; simp, inside, hspoke, rfl⟩

/-- A scope says what opens it, and behind what its body has said what ends it. -/
theorem adds_scope {S : Session σ} {n : Nat} {closing undoing : String}
    (hclosing : closing = endingText n none) (hundoing : ∀ e, undoing = endingText n (some e))
    {body : Action (Traced σ) α} (h : Adds body fun l r => ∃ inside, post inside r ∧
      l = .entered n :: (inside ++ [.left (failureOf r)])) :
    Adds (Transaction.scope S.traced (openingText n) closing undoing body) (Says n post) := by
  have hbatch : ∀ sql, Adds (S.traced.batch sql) fun l r => l = [.batch sql (failureOf r)] :=
    fun sql => adds_watch _ _
  intro o r o' hrun
  have hended : ∀ {o₁ o₂ : Traced σ} {answer : Except Error α} {failure : Option Error},
      (S.traced.batch (openingText n)).exec o = (.ok (), o₁) → body.exec o₁ = (answer, o₂) →
      o'.marks = o₂.marks ++ [.batch (endingText n (failureOf answer)) failure] →
      ∃ l, o'.marks = o.marks ++ l ∧ Says n post l (concluded answer failure) := by
    intro o₁ o₂ answer failure hopen hbody hend
    obtain ⟨_, hopened, rfl⟩ := hbatch _ _ _ _ hopen
    obtain ⟨_, hmarks, inside, hspoke, rfl⟩ := h _ _ _ hbody
    refine ⟨_, ?_, .ended hspoke failure⟩
    rw [hend, hmarks, hopened]
    simp [failureOf]
  cases Transaction.scopeRun_of_exec hrun with
  | @unopened e _ hopen =>
    obtain ⟨_, hmarks, rfl⟩ := hbatch _ _ _ _ hopen
    exact ⟨_, hmarks, .unopened e⟩
  | closed hopen hbody hclose =>
    obtain ⟨_, hclosed, rfl⟩ := hbatch _ _ _ _ hclose
    exact hended hopen hbody (hclosing ▸ hclosed)
  | unclosed hopen hbody hclose =>
    obtain ⟨_, hclosed, rfl⟩ := hbatch _ _ _ _ hclose
    exact hended hopen hbody (hclosing ▸ hclosed)
  | @undone e _ _ _ _ hopen hbody hundo =>
    obtain ⟨_, hundone, rfl⟩ := hbatch _ _ _ _ hundo
    exact hended hopen hbody (hundoing e ▸ hundone)

theorem adds_transaction {S : Session σ} {t : Transaction (Traced σ)} (ht : t.session = S.traced)
    {body : Transaction (Traced σ) → Action (Traced σ) α}
    (h : Adds (body { t with depth := t.depth + 1 }) post) :
    Adds (t.transaction (Traced.callback body)) (Says (t.depth + 1) post) := by
  have hscope := adds_scope (S := S) (n := t.depth + 1) rfl (fun _ => rfl) h.callback
  rw [Transaction.transaction, ht]
  exact hscope

theorem adds_begin {S : Session σ} {c : Connection (Traced σ)} (hc : c.session = S.traced)
    {body : Transaction (Traced σ) → Action (Traced σ) α}
    (h : Adds (body { c with depth := 0 }) post) :
    Adds (Transaction.begin c (Traced.callback body)) fun l r =>
      (∃ e, l = [.acquired (some e)] ∧ r = .error e) ∨
        ∃ said, l = .acquired none :: said ∧ Says 0 post said r := by
  intro o r o' hrun
  rw [Transaction.begin, hc, Action.exec_bind] at hrun
  have hacquired : Adds S.traced.acquire fun l r => l = [.acquired (failureOf r)] :=
    adds_watch _ _
  cases hacquire : S.traced.acquire.exec o with
  | mk answer o₁ =>
  rw [hacquire] at hrun
  obtain ⟨_, hmarks, rfl⟩ := hacquired _ _ _ hacquire
  cases answer with
  | error e =>
    cases hrun
    exact ⟨_, hmarks, .inl ⟨e, rfl, rfl⟩⟩
  | ok _ =>
    have hscope := adds_scope (S := S) (n := 0) rfl (fun _ => rfl) h.callback
    obtain ⟨said, hsaid, hspoke⟩ := hscope _ _ _ hrun
    refine ⟨.acquired none :: said, ?_, .inr ⟨said, rfl, hspoke⟩⟩
    rw [hsaid, hmarks]
    simp [failureOf]

end Traced

open Traced (Adds adds_perform adds_transaction adds_begin)

/-- By induction on the program: a statement adds its mark, a scope what it says with the program
inside of it, and then goes on what the program does with the answer. -/
theorem Program.adds_steps {S : Session σ} (p : Program α) (t : Transaction (Traced σ))
    (ht : t.session = S.traced) : Adds (p.steps t) (p.Says (t.depth + 1)) := by
  induction p generalizing t with
  | done result =>
    intro o r o' h
    cases h
    exact ⟨[], (List.append_nil _).symm, rfl, rfl⟩
  | ask statement next ih =>
    intro o r o' h
    obtain ⟨l, hl, answer, _, rest, rfl, rfl, hrest⟩ :=
      (adds_perform ht statement).attempt_bind (fun r => ih r t ht) o r o' h
    exact ⟨_, hl, answer, rest, rfl, hrest⟩
  | scope body next ihbody ih =>
    intro o r o' h
    obtain ⟨l, hl, answer, inside, rest, rfl, hinside, hrest⟩ :=
      (adds_transaction ht (ihbody _ ht)).attempt_bind (fun r => ih r t ht) o r o' h
    exact ⟨_, hl, answer, inside, rest, rfl, hinside, hrest⟩

/-! ## Brackets -/

/-- The marks inside of `n` scopes are bracketed: a body begins right behind the text that has
opened its scope and is over right before the one that ends it, which is the one for its outcome,
and the bodies in it are deeper. -/
inductive Bracketed : Nat → List Mark → Prop
  | nil {n : Nat} : Bracketed n []
  | said {n : Nat} {rest : List Mark} (call : Call) (failure : Option Error)
    (hrest : Bracketed n rest) : Bracketed n (.said call failure :: rest)
  | scope {n : Nat} {inside rest : List Mark} (failure ended : Option Error)
    (hinside : Bracketed (n + 1) inside) (hrest : Bracketed n rest) :
    Bracketed n (.batch (Transaction.openingText n) none :: .entered n ::
      (inside ++ .left failure :: .batch (Transaction.endingText n failure) ended :: rest))

namespace Bracketed

variable {n : Nat} {l l' : List Mark}

theorem append (h : Bracketed n l) (h' : Bracketed n l') : Bracketed n (l ++ l') := by
  induction h with
  | nil => exact h'
  | said call failure _ ih => exact .said call failure (ih h')
  | @scope n inside rest failure ended hinside _ _ ih =>
    rw [List.cons_append, List.cons_append, List.append_assoc]
    exact .scope failure ended hinside (ih h')

theorem le_of_entered (h : Bracketed n l) {m : Nat} (hm : .entered m ∈ l) : n ≤ m := by
  induction h with
  | nil => cases hm
  | said call failure _ ih => exact ih (by simpa using hm)
  | @scope n inside rest failure ended _ _ ihinside ih =>
    simp only [Mark.batch, List.mem_cons, List.mem_append, reduceCtorEq, false_or,
      Mark.entered.injEq] at hm
    rcases hm with rfl | hm | hm
    · exact Nat.le_refl _
    · exact Nat.le_of_succ_le (ihinside hm)
    · exact ih hm

end Bracketed

namespace Transaction

variable {n : Nat} {body : List Mark → Except Error α → Prop} {l : List Mark} {r : Except Error α}

theorem Says.bracketed (hbody : ∀ l r, body l r → Bracketed (n + 1) l) (h : Says n body l r) :
    Bracketed n l := by
  cases h with
  | unopened e => exact .said _ _ .nil
  | ended hinside failure => exact .scope _ failure (hbody _ _ hinside) .nil

theorem Says.count_entered (hbody : ∀ l r, body l r → Bracketed (n + 1) l) (h : Says n body l r) :
    l.count (.entered n) = if l.head? = some (.batch (openingText n) none) then 1 else 0 := by
  cases h with
  | unopened e => simp [Mark.batch]
  | @ended inside answer hinside failure =>
    have hdeeper : .entered n ∉ inside := fun hn =>
      absurd ((hbody _ _ hinside).le_of_entered hn) (by omega)
    simp [Mark.batch, List.count_eq_zero.2 hdeeper]

end Transaction

theorem Program.Says.bracketed {p : Program α} {n : Nat} {l : List Mark} {r : Except Error α}
    (h : p.Says n l r) : Bracketed n l := by
  induction p generalizing n l with
  | done result =>
    obtain ⟨rfl, -⟩ := h
    exact .nil
  | ask statement next ih =>
    obtain ⟨answer, rest, rfl, hrest⟩ := h
    exact .said _ _ (ih answer hrest)
  | scope body next ihbody ih =>
    obtain ⟨answer, inside, rest, rfl, hinside, hrest⟩ := h
    exact (hinside.bracketed fun _ _ h => ihbody h).append (ih answer hrest)

/-! ## The protocol -/

namespace Transaction

/-- A scope inside of `n` others says its own texts around its body. The body has begun once if the
scope has been opened and not at all if it has not, and the marks are bracketed. -/
structure Follows (n : Nat) (p : Program α) (l : List Mark) (r : Except Error α) : Prop where
  spoken : Says n (p.Says (n + 1)) l r
  once : l.count (.entered n) = if l.head? = some (.batch (openingText n) none) then 1 else 0
  bracketed : Bracketed n l

theorem Says.follows {n : Nat} {p : Program α} {l : List Mark} {r : Except Error α}
    (h : Says n (p.Says (n + 1)) l r) : Follows n p l r :=
  ⟨h, h.count_entered fun _ _ => Program.Says.bracketed,
    h.bracketed fun _ _ => Program.Says.bracketed⟩

/-- However a session answers, a transaction that cannot take it says nothing, and every other one
follows the protocol of a scope, as savepoints do at every depth: it is opened by its own text, then
its body runs once, and then its own text ends it, for the outcome of the body. It fails with the
error of its body if that has failed, and with that of the text that has failed else. -/
theorem follows_protocol (S : Session σ) (schema : Schema) (p : Program α) (o : Traced σ) :
    (∃ r o' l, (Database.transaction ⟨S.traced, schema⟩ p.traced).exec o = (r, o') ∧
      o'.marks = o.marks ++ l ∧
      ((∃ e, l = [.acquired (some e)] ∧ r = .error e) ∨
        ∃ said, l = .acquired none :: said ∧ Follows 0 p said r)) ∧
    ∀ depth, ∃ r o' l, (transaction ⟨⟨S.traced, schema⟩, depth⟩ p.traced).exec o = (r, o') ∧
      o'.marks = o.marks ++ l ∧ Follows (depth + 1) p l r := by
  have hsteps := fun depth => p.adds_steps (S := S) ⟨⟨S.traced, schema⟩, depth⟩ rfl
  constructor
  · obtain ⟨l, hl, hspoke⟩ :=
      adds_begin (S := S) (c := ⟨S.traced, schema⟩) rfl (hsteps 0) o _ _ rfl
    refine ⟨_, _, l, rfl, hl, hspoke.imp id ?_⟩
    rintro ⟨said, rfl, hsaid⟩
    exact ⟨said, rfl, hsaid.follows⟩
  · intro depth
    obtain ⟨l, hl, hspoke⟩ := adds_transaction (t := ⟨⟨S.traced, schema⟩, depth⟩) rfl
      (hsteps (depth + 1)) o _ _ rfl
    exact ⟨_, _, l, rfl, hl, hspoke.follows⟩

end Transaction

/-- Two scopes, one in the other, that both give up. -/
def Blog.givesUpTwice : Program Unit :=
  .scope (.done (α := Unit) (.error (.other "inner"))) fun _ => .done (.error (.other "outer"))

/-- Neither of them can be undone, and each fails with the error of its body. -/
example : ((Database.transaction ⟨(Session.failing "rollback").traced, Blog.schema⟩
      Blog.givesUpTwice.traced).exec ⟨(), []⟩) =
    (.error (.other "outer"), ⟨(), [.acquired none, .batch "begin deferred" none, .entered 0,
      .batch "savepoint sp1" none, .entered 1, .left (some (.other "inner")),
      .batch "rollback to sp1; release sp1"
        (some (.transaction "rollback to sp1; release sp1 failed")),
      .left (some (.other "outer")),
      .batch "rollback" (some (.transaction "rollback failed"))]⟩) := by
  rfl

end Tabula
