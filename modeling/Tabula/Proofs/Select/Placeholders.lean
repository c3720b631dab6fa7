import Tabula.Proofs.Embedding.Limits
import Tabula.Proofs.Select.Plain
import Tabula.Proofs.Schema.Assembled

/-!
# Placeholders of a select

The store binds parameters by position. `Select.values` says which values the clauses of a select
ask for, and in which order, without looking at SQL; the placeholders of the compiled select are
those of these values, in this order.
-/

namespace Tabula

/-- The fields that a select knows after its joins. -/
def Select.fields (s : Schema) (t : Table) (q : Select) : Except Error Fields :=
  q.joins.foldlM (fun fields j => do
    return fields.add j.label (Text.identifier j.label) (← s.table j.table)) (.forSelect t)

/-- The values that a select binds: the limits of what it includes, the operands of its conditions,
and limit and offset unless they are negative. -/
def Select.values (s : Schema) (key : String) (q : Select) : Except Error (List Value) := do
  let table ← s.table key
  let fields ← q.fields s table
  let limits ← Inclusion.limitsOf s (q.inclusion.getD .empty).relations table.key
  let filtered ← q.filter.mapM (Filter.values fields)
  let having ← q.having.mapM (Filter.values fields)
  let window := (q.limit.filter fun n => 0 ≤ n).toList ++ (q.offset.filter fun n => 0 ≤ n).toList
  return limits.map Value.integer ++ filtered.getD [] ++ having.getD [] ++ window.map Value.integer

/-! ## Parameters of a plan -/

theorem Fragment.params_appendCondition (f : Fragment) (keyword : String) (p : Option Predicate) :
    (f.appendCondition keyword p).params =
      f.params ++ (p.map fun p => p.render.params).getD [] := by
  unfold appendCondition
  cases p with
  | none => simp
  | some p =>
    dsimp only
    split
    · rename_i hempty
      simp [params_of_isEmpty hempty]
    · simp

namespace SelectPlan

variable {s : Schema} {key : String} {q : Select} {p : SelectPlan}

theorem params_projection (p : SelectPlan) :
    p.projection.params = p.embeddings.flatMap fun e => e.2.render.params := by
  simp [projection, SelectItem.render, List.flatMap_map]

theorem params_window (p : SelectPlan) :
    p.window.params = (p.limit.toList ++ p.offset.toList).map Value.integer := by
  unfold window
  cases p.limit <;> cases p.offset <;> simp

theorem params_render (p : SelectPlan) : p.render.params =
    (p.embeddings.flatMap fun e => e.2.render.params) ++
      (p.filter.map fun p => p.render.params).getD [] ++
      (p.having.map fun p => p.render.params).getD [] ++
      (p.limit.toList ++ p.offset.toList).map Value.integer := by
  have hjoins : ∀ (joins : List JoinPlan) (f : Fragment),
      (joins.foldl (fun f j => f.append j.render) f).params = f.params := by
    intro joins
    induction joins with
    | nil => exact fun f => rfl
    | cons j joins ih =>
      intro f
      rw [List.foldl_cons, ih]
      simp [JoinPlan.render]
  simp only [render, Fragment.params_append, Fragment.params_appendRaw,
    Fragment.params_appendCondition, hjoins, params_projection, params_window]
  simp

theorem fields_of_plans (h : p.Plans s key q) : q.fields s p.table = .ok p.scope.fields := by
  refine foldlM_map_state SelectScope.fields (fun j _ scope scope' hstep => ?_) h.scope
  obtain ⟨table, column, operator, field, key, htable, -, -, rfl⟩ :=
    SelectScope.exists_of_join hstep
  rw [htable, ok_bind, pure_eq_ok]

/-- Resolving a clause that may be absent gives the predicate that binds its values. -/
theorem values_of_mapM_ofFilter {fields : Fields} {given : Option Filter}
    {found : Option Predicate} (h : given.mapM (Predicate.ofFilter fields) = .ok found) :
    given.mapM (Filter.values fields) = .ok (found.map fun p => p.render.params) := by
  rcases option_mapM_eq_ok.1 h with ⟨rfl, rfl⟩ | ⟨f, p, rfl, rfl, hp⟩
  · rfl
  · exact option_mapM_eq_ok.2 (.inr ⟨f, _, rfl, rfl, Predicate.values_of_ofFilter hp⟩)

/-- A plan binds the values of its select. -/
theorem values_of_plans (h : p.Plans s key q) : q.values s key = .ok p.render.params := by
  obtain ⟨used, hembeddings⟩ := h.embeddings
  rw [h.inclusion] at hembeddings
  obtain ⟨ns, hns, hlimits⟩ := map_eq_ok.1 (Embedding.limits_of_ofInclusions hembeddings)
  rw [Select.values, h.table, ok_bind, fields_of_plans h, ok_bind, hns, ok_bind,
    values_of_mapM_ofFilter h.filter, ok_bind, values_of_mapM_ofFilter h.having, ok_bind,
    pure_eq_ok, params_render, h.limit, h.offset, hlimits]

end SelectPlan

/-! ## Binding by position -/

/-- If no name in a schema and in a select holds a question mark, the question marks of the
compiled select are as many as its parameters and the `k`-th is the placeholder of the `k`-th
parameter; and the parameters are the values of the select. -/
theorem Select.placeholders_of_compile {s : Schema} (hs : s.Unmarked) {key : String} {q : Select}
    (hq : q.Unmarked) {c : Compiled} (h : compile s key q = .ok c) :
    c.sql.toList.count '?' = c.params.length ∧
      (∀ k (hk : k < c.params.length), c.fragment.PlaceholderAt k c.params[k]) ∧
      q.values s key = .ok c.params := by
  obtain ⟨p, hp, hfragment, -⟩ := exists_of_compile h
  have hplain : c.fragment.Plain := hfragment ▸ p.plain_render hs hq hp
  refine ⟨hplain.count_sql, fun k hk => hplain.placeholderAt hk, ?_⟩
  rw [Compiled.params, hfragment]
  exact p.values_of_plans hp

/-- The limit of an author, a relation to one, binds nothing. -/
def Blog.activity : Select where
  inclusion := some ⟨none, [("posts", ⟨some 3, [("author", ⟨some 9, [("posts", ⟨some 2, []⟩)]⟩)]⟩)]⟩
  filter := some (.group .or [.compare "id" .isIn (.arr [.bool true, .null]),
    .compare "isActive" .eq (.bool false), .compare "avatar" .ne .null])
  groupBy := some ⟨["id"]⟩
  having := some (.compare "users.id" .lt (.bool true))
  limit := some 10
  offset := some 20

theorem Select.placeholders_of_compile_activity :
    ∃ c, compile Blog.schema "users" Blog.activity = .ok c ∧
      c.params = [.integer 2, .integer 3, .integer 1, .null, .integer 0, .integer 1, .integer 10,
        .integer 20] ∧
      c.sql.toList.count '?' = 8 ∧
      ∀ k (hk : k < c.params.length), c.fragment.PlaceholderAt k c.params[k] := by
  have hparams : (compile Blog.schema "users" Blog.activity).map Compiled.params =
      .ok [.integer 2, .integer 3, .integer 1, .null, .integer 0, .integer 1, .integer 10,
        .integer 20] := by decide
  cases hc : compile Blog.schema "users" Blog.activity with
  | error e =>
    rw [hc] at hparams
    cases hparams
  | ok c =>
    rw [hc] at hparams
    have hparams := Except.ok.inj hparams
    obtain ⟨hcount, hplaceholders, -⟩ := placeholders_of_compile (by decide) (by decide) hc
    rw [hparams] at hcount
    exact ⟨c, rfl, hparams, hcount, hplaceholders⟩

end Tabula
