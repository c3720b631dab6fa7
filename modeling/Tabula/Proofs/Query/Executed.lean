import Tabula.Proofs.Query.Configured
import Tabula.Proofs.Schema.Assembled
import Tabula.Proofs.Transaction.Program

/-!
# What executing a query asks for

Configuring and building a query ask the store for nothing. Executing it makes one call, with what
has been built, or none if the build has failed. This is shown for a build followed by a call in
general; the ways to execute a query differ in the call and in how its answer is read.
-/

namespace Tabula

variable {σ κ α β : Type}

/-- The connection whose calls are seen. -/
def Connection.observed (c : Connection σ) : Connection (Observed σ) :=
  ⟨c.session.observed, c.schema⟩

theorem Action.exec_ofExcept (e : Except Error α) (st : σ) :
    (ofExcept e : Action σ α).exec st = (e, st) := rfl

theorem Action.ofExcept_ok (a : α) : (ofExcept (.ok a) : Action σ α) = pure a := rfl

theorem Observed.exec_call (k : Call) (a : Action σ α) (o : Observed σ) :
    (call k a).exec o = ((a.exec o.state).1,
      { o with state := (a.exec o.state).2, log := o.log ++ [⟨k, (a.exec o.state).1.isOk⟩] }) :=
  rfl

theorem Statement.perform_observed (c : Connection σ) (statement : Statement β) :
    statement.perform c.observed = Observed.call statement.call (statement.perform c) := by
  cases statement with
  | run sql params => rfl
  | get sql params => rfl
  | all sql params => rfl
  | batch sql => rfl

/-- If the build has failed, the action fails in the same way and has made no call. Otherwise it has
made one, the statement of what was built, and has failed as that call has or has read its answer. -/
structure AsksOnce (c : Connection σ) (built : Except Error Compiled)
    (statement : Compiled → Statement β) (read : Compiled → β → Except Error α)
    (a : Action (Observed σ) α) : Prop where
  refused : ∀ {e}, built = .error e → ∀ o, a.exec o = (.error e, o)
  asked : ∀ {b}, built = .ok b → ∀ {o : Observed σ} {answer st},
    ((statement b).perform c).exec o.state = (answer, st) →
      a.exec o = (answer >>= read b,
        { o with state := st, log := o.log ++ [⟨(statement b).call, answer.isOk⟩] })

namespace AsksOnce

variable {c : Connection σ} {built : Except Error Compiled} {statement : Compiled → Statement β}
  {read : Compiled → β → Except Error α}

/-- A build, a call and the reading of its answer, one after another. -/
theorem of_steps : AsksOnce c built statement read (do
    let b ← Action.ofExcept built
    let answer ← (statement b).perform c.observed
    Action.ofExcept (read b answer)) where
  refused := by
    rintro e rfl o
    rw [Action.exec_bind, Action.exec_ofExcept]
  asked := by
    rintro b rfl o answer st hcall
    rw [Action.exec_bind, Action.exec_ofExcept]
    dsimp only
    rw [Action.exec_bind, Statement.perform_observed, Observed.exec_call, hcall]
    cases answer with
    | error e => rfl
    | ok x => rfl

/-- Whatever is made of the result makes no call. -/
theorem bind {γ : Type} {a : Action (Observed σ) α} (h : AsksOnce c built statement read a)
    (f : α → Except Error γ) :
    AsksOnce c built statement (fun b answer => read b answer >>= f)
      (a >>= fun x => Action.ofExcept (f x)) where
  refused := by
    intro e he o
    rw [Action.exec_bind, h.refused he]
  asked := by
    intro b hb o answer st hcall
    rw [Action.exec_bind, h.asked hb hcall, ← bind_assoc]
    cases answer >>= read b with
    | error e => rfl
    | ok x => rfl

end AsksOnce

namespace Query

variable {c : Connection σ} [Compilable κ] {q : Query (Observed σ) κ}

theorem asksOnce_run (hq : q.session = c.session.observed) :
    AsksOnce c q.build (fun b => .run b.sql b.params) (fun _ result => .ok result) q.run := by
  have hrun : q.run = (do
      let b ← Action.ofExcept q.build
      let answer ← (Statement.run b.sql b.params).perform c.observed
      Action.ofExcept (.ok answer)) := by
    simp only [Action.ofExcept_ok, bind_pure]
    rw [run, hq]
    rfl
  rw [hrun]
  exact .of_steps

theorem asksOnce_first (hq : q.session = c.session.observed) :
    AsksOnce c q.build (fun b => .get b.sql b.params) (fun b row => row.mapM b.mapper.mapRow)
      q.first := by
  rw [first, hq]
  exact .of_steps

theorem asksOnce_all (hq : q.session = c.session.observed) :
    AsksOnce c q.build (fun b => .all b.sql b.params) (fun b rows => b.mapper.mapRows rows)
      q.all := by
  rw [all, hq]
  exact .of_steps

end Query

namespace ReturningQuery

/-- What a query that returns rows makes of them. -/
def result [Write κ] (q : ReturningQuery σ κ) (rows : List Json) : Json :=
  if Write.isMany q.query.clauses then .arr rows else rows.head?.getD .null

theorem asksOnce_execute {c : Connection σ} [Write κ] {q : ReturningQuery (Observed σ) κ}
    (hq : q.query.session = c.session.observed) :
    AsksOnce c q.build (fun b => .all b.sql b.params)
      (fun b rows => b.mapper.mapRows rows >>= fun js => .ok (q.result js)) q.execute :=
  (Query.asksOnce_all hq).bind fun rows => .ok (q.result rows)

end ReturningQuery

/-- The first call that cannot be read is what building and executing a select fail with. If all can
be read, a select is built from its joins and the last value of every other clause, however the
calls were mixed. Executing it, or a query that writes, makes one call if it can be built and none
if it cannot. -/
theorem Connection.asksOnce_of_calls (c : Connection σ) (table : String) :
    (∀ (calls : List SelectCall) fault, calls.findSome? SelectCall.fault? = some fault →
      (c.observed.configured table calls).build = .error (.invalidStatement fault) ∧
      ∀ o, (c.observed.configured table calls).first.exec o =
          (.error (.invalidStatement fault), o) ∧
        (c.observed.configured table calls).all.exec o = (.error (.invalidStatement fault), o)) ∧
    (∀ calls calls' : List SelectCall, calls.findSome? SelectCall.fault? = none →
      calls'.findSome? SelectCall.fault? = none →
      SelectCall.asked calls = SelectCall.asked calls' →
      (c.observed.configured table calls).build = (c.observed.configured table calls').build) ∧
    (∀ (calls : List SelectCall) q, q = c.observed.configured table calls →
      AsksOnce c q.build (fun b => .get b.sql b.params) (fun b row => row.mapM b.mapper.mapRow)
        q.first ∧
      AsksOnce c q.build (fun b => .all b.sql b.params) (fun b rows => b.mapper.mapRows rows)
        q.all) ∧
    ∀ {κ : Type} [Write κ],
      (∀ q : Query (Observed σ) κ, q.session = c.session.observed →
        AsksOnce c q.build (fun b => .run b.sql b.params) (fun _ result => .ok result) q.run) ∧
      ∀ q : ReturningQuery (Observed σ) κ, q.query.session = c.session.observed →
        AsksOnce c q.build (fun b => .all b.sql b.params) (fun b rows => b.mapper.mapRows rows)
          q.all ∧
        AsksOnce c q.build (fun b => .all b.sql b.params)
          (fun b rows => b.mapper.mapRows rows >>= fun js => .ok (q.result js)) q.execute := by
  have hfirst := fun calls => Query.asksOnce_first (session_configured c.observed table calls)
  have hall := fun calls => Query.asksOnce_all (session_configured c.observed table calls)
  refine ⟨?_, ?_, ?_, fun {κ _} => ⟨?_, ?_⟩⟩
  · intro calls fault hfault
    have hbuild := build_of_fault c.observed table hfault
    exact ⟨hbuild, fun o => ⟨(hfirst calls).refused hbuild o, (hall calls).refused hbuild o⟩⟩
  · intro calls calls' hcalls hcalls' hasked
    rw [build_of_asked c.observed table hcalls, build_of_asked c.observed table hcalls', hasked]
  · rintro calls q rfl
    exact ⟨hfirst calls, hall calls⟩
  · intro q hq
    exact Query.asksOnce_run hq
  · intro q hq
    exact ⟨Query.asksOnce_all hq, ReturningQuery.asksOnce_execute hq⟩

namespace Blog

/-- A store without rows. -/
def store : Connection Unit where
  session := {
    run := fun _ _ => pure {}
    get := fun _ _ => pure none
    all := fun _ _ => pure []
    batch := fun _ => pure () }
  schema := schema

def byAuthor : Json :=
  .obj [("authorId", .obj [("==", .ofInt64 7)])]

/-- A filter that is no object, and one that is. -/
def mended : List SelectCall :=
  [.limit 1, .filter (.json (.str "authorId")), .filter (.json byAuthor), .orderBy (.json .null)]

/-- The limit is set twice. -/
def hesitant : List SelectCall :=
  [.limit 1, .filter (.json byAuthor), .limit 2]

def resolute : List SelectCall :=
  [.limit 2, .filter (.typed (.compare "authorId" .eq (.ofInt64 7)))]

end Blog

theorem Connection.asksOnce_of_calls_blog :
    ((Blog.store.observed.configured "posts" Blog.mended).build =
        .error (.invalidStatement (.notObject .filter (.str "authorId"))) ∧
      (Blog.store.observed.configured "posts" Blog.hesitant).build =
        (Blog.store.observed.configured "posts" Blog.resolute).build) ∧
      (∃ b, (Blog.store.observed.configured "posts" Blog.hesitant).build = .ok b ∧
        (Blog.store.observed.configured "posts" Blog.hesitant).first.exec ⟨(), [], []⟩ =
          (.ok none, ⟨(), [⟨⟨.get, b.sql, b.params⟩, true⟩], []⟩)) ∧
      (Blog.store.observed.delete "posts").run.exec ⟨(), [], []⟩ =
        (.ok {}, ⟨(), [⟨⟨.run, "delete from posts", []⟩, true⟩], []⟩) ∧
      ((Blog.store.observed.delete "posts").returning (.typed ⟨["id"]⟩)).execute.exec ⟨(), [], []⟩ =
        (.ok .null,
          ⟨(), [⟨⟨.all, "delete from posts returning id as \"id\"", []⟩, true⟩], []⟩) := by
  obtain ⟨hfault, hasked, hselect, hwrite⟩ := asksOnce_of_calls Blog.store "posts"
  obtain ⟨hrun, hreturning⟩ := hwrite (κ := Delete)
  refine ⟨⟨(hfault Blog.mended _ rfl).1, hasked Blog.hesitant Blog.resolute rfl rfl rfl⟩, ?_, ?_, ?_⟩
  · obtain ⟨b, hb⟩ : ∃ b, (Blog.store.observed.configured "posts" Blog.hesitant).build = .ok b :=
      ⟨_, rfl⟩
    exact ⟨b, hb, (hselect Blog.hesitant _ rfl).1.asked hb rfl⟩
  · exact (hrun (Blog.store.observed.delete "posts") rfl).asked rfl rfl
  · exact (hreturning ((Blog.store.observed.delete "posts").returning (.typed ⟨["id"]⟩)) rfl).2.asked
      rfl rfl

end Tabula
