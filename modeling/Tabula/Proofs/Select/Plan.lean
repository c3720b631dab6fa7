import Tabula.Plan.Select
import Tabula.Proofs.Schema.Lookup
import Mathlib.Data.List.Induction

/-!
# How selects are planned

The plan of a select is made in steps that may fail. Here is what the steps have found once there
is a plan.
-/

namespace Tabula

namespace SelectScope

/-- The scope with the columns of a joined table, in its fields and its default shape. -/
def joined (scope : SelectScope) (j : JoinPlan) : SelectScope where
  fields := scope.fields.add j.label (Text.identifier j.label) j.table
  shape := scope.shape ++ [(j.label, .nested (Shape.ofTable j.label j.table))]
  joins := scope.joins ++ [j]

/-- What a join checks and adds. -/
theorem join_eq_ok {s : Schema} {scope scope' : SelectScope} {j : Join} :
    join s scope j = .ok scope' ↔
      ∃ table condition column field, s.table j.table = .ok table ∧ j.condition = some condition ∧
        condition.operator.isSet = false ∧ scope.shape.has j.label = false ∧
        table.column condition.column = .ok column ∧
        scope.fields.resolve condition.field = .ok field ∧
        scope' = scope.joined ⟨j.kind, table, j.label, column, condition.operator, field⟩ := by
  unfold join
  rw [bind_eq_ok]
  constructor
  · rintro ⟨table, htable, h⟩
    split at h
    · cases h
    rename_i condition hcondition
    dsimp only at h
    split at h
    · cases h
    rename_i hset
    split at h
    · cases h
    rename_i hlabel
    obtain ⟨column, hcolumn, h⟩ := bind_eq_ok.1 h
    obtain ⟨field, hfield, h⟩ := bind_eq_ok.1 h
    cases h
    exact ⟨table, condition, column, field, htable, hcondition, by simpa using hset,
      by simpa using hlabel, hcolumn, hfield, rfl⟩
  · rintro ⟨table, condition, column, field, htable, hcondition, hset, hlabel, hcolumn, hfield, rfl⟩
    refine ⟨table, htable, ?_⟩
    simp only [hcondition, hset, hlabel, hcolumn, hfield, ok_bind]
    rfl

/-- What a join finds and adds. -/
theorem exists_of_join {s : Schema} {scope scope' : SelectScope} {j : Join}
    (h : join s scope j = .ok scope') :
    ∃ table column operator field key, s.table j.table = .ok table ∧
      column ∈ table.columns ∧ scope.fields.resolve key = .ok field ∧
      scope' = {
        fields := scope.fields.add j.label (Text.identifier j.label) table
        shape := scope.shape ++ [(j.label, .nested (Shape.ofTable j.label table))]
        joins := scope.joins ++ [⟨j.kind, table, j.label, column, operator, field⟩] } := by
  obtain ⟨table, condition, column, field, htable, -, -, -, hcolumn, hfield, rfl⟩ := join_eq_ok.1 h
  exact ⟨table, column, condition.operator, field, condition.field, htable,
    (Table.column_eq_ok_iff.1 hcolumn).1, hfield, rfl⟩

/-- What holds of a table without joins and is kept by each join holds after all of them. -/
theorem joins_induction {s : Schema} {t : Table} {P : List Join → SelectScope → Prop}
    (htable : P [] (ofTable t))
    (hstep : ∀ before scope j scope', P before scope → join s scope j = .ok scope' →
      P (before ++ [j]) scope') {joins : List Join} {scope : SelectScope}
    (h : joins.foldlM (join s) (ofTable t) = .ok scope) : P joins scope := by
  induction joins using List.reverseRecOn generalizing scope with
  | nil =>
    cases h
    exact htable
  | append_singleton before j ih =>
    rw [List.foldlM_append] at h
    obtain ⟨scope₁, hbefore, h⟩ := bind_eq_ok.1 h
    rw [List.foldlM_cons] at h
    obtain ⟨scope₂, hjoin, h⟩ := bind_eq_ok.1 h
    cases h
    exact hstep before scope₁ j _ (ih hbefore) hjoin

end SelectScope

/-- The plan consists of what the clauses of the select have been resolved to. -/
structure SelectPlan.Plans (s : Schema) (key : String) (q : Select) (p : SelectPlan) : Prop where
  table : s.table key = .ok p.table
  scope : q.joins.foldlM (SelectScope.join s) (.ofTable p.table) = .ok p.scope
  shape : p.shape = q.shape.getD p.scope.shape
  items : ∃ items, SelectItem.ofEntries p.scope.fields p.shape = .ok items ∧
    p.items = SelectItem.distinct items
  inclusion : p.inclusion = q.inclusion.getD .empty
  embeddings : ∃ used, Embedding.ofInclusions s p.inclusion.relations p.table.key p.table.name 0 =
    .ok (p.embeddings, used)
  filter : q.filter.mapM (Predicate.ofFilter p.scope.fields) = .ok p.filter
  having : q.having.mapM (Predicate.ofFilter p.scope.fields) = .ok p.having
  groupBy : p.groupBy = (q.groupBy.map GroupBy.keys).getD []
  orderBy : p.orderBy = (q.orderBy.map OrderBy.keys).getD []
  limit : p.limit = q.limit.filter fun n => 0 ≤ n
  offset : p.offset = q.offset.filter fun n => 0 ≤ n

theorem SelectPlan.plans_of_ofSelect {s : Schema} {key : String} {q : Select} {p : SelectPlan}
    (h : ofSelect s key q = .ok p) : p.Plans s key q := by
  unfold ofSelect at h
  obtain ⟨table, htable, h⟩ := bind_eq_ok.1 h
  obtain ⟨scope, hscope, h⟩ := bind_eq_ok.1 h
  obtain ⟨items, hitems, h⟩ := bind_eq_ok.1 h
  obtain ⟨⟨embeddings, used⟩, hembeddings, h⟩ := bind_eq_ok.1 h
  dsimp only at h
  split at h
  · cases h
  obtain ⟨filter, hfilter, h⟩ := bind_eq_ok.1 h
  obtain ⟨found, hfound, h⟩ := bind_eq_ok.1 h
  cases h
  exact {
    table := htable
    scope := hscope
    shape := rfl
    items := ⟨items, hitems, rfl⟩
    inclusion := rfl
    embeddings := ⟨used, hembeddings⟩
    filter := hfilter
    having := hfound
    groupBy := rfl
    orderBy := rfl
    limit := rfl
    offset := rfl }

/-- There is a plan if the clauses have been resolved and anything is selected or included. -/
theorem SelectPlan.ofSelect_eq_ok {s : Schema} {key : String} {q : Select} {p : SelectPlan} :
    ofSelect s key q = .ok p ↔
      p.Plans s key q ∧ (p.items.isEmpty && p.embeddings.isEmpty) = false := by
  constructor
  · intro h
    refine ⟨plans_of_ofSelect h, ?_⟩
    unfold ofSelect at h
    obtain ⟨table, -, h⟩ := bind_eq_ok.1 h
    obtain ⟨scope, -, h⟩ := bind_eq_ok.1 h
    obtain ⟨items, -, h⟩ := bind_eq_ok.1 h
    obtain ⟨⟨embeddings, used⟩, -, h⟩ := bind_eq_ok.1 h
    dsimp only at h
    split at h
    · cases h
    rename_i hempty
    obtain ⟨filter, -, h⟩ := bind_eq_ok.1 h
    obtain ⟨having, -, h⟩ := bind_eq_ok.1 h
    cases h
    exact Bool.eq_false_iff.2 hempty
  · rintro ⟨h, hempty⟩
    obtain ⟨items, hitems, hdistinct⟩ := h.items
    obtain ⟨used, hembeddings⟩ := h.embeddings
    rw [hdistinct] at hempty
    simp only [ofSelect, h.table, h.scope, ← h.shape, hitems, ← h.inclusion, hembeddings, h.filter,
      h.having, ok_bind, hempty, ← h.groupBy, ← h.orderBy, ← h.limit, ← h.offset]
    rw [← hdistinct]
    rfl

/-- A select compiles to the SQL of its plan. -/
theorem Select.exists_of_compile {s : Schema} {key : String} {q : Select} {c : Compiled}
    (h : compile s key q = .ok c) : ∃ p : SelectPlan, p.Plans s key q ∧ c.fragment = p.render ∧
      c.mapper = .select ⟨s, p.table.key, p.scope.fields, p.shape, p.inclusion⟩ := by
  obtain ⟨p, hp, h⟩ := bind_eq_ok.1 h
  cases h
  exact ⟨p, SelectPlan.plans_of_ofSelect hp, rfl, rfl⟩

end Tabula
