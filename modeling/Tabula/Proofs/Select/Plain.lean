import Tabula.Proofs.Embedding.Plain
import Tabula.Proofs.Filter.Leaves
import Tabula.Proofs.Select.Plan
import Tabula.Proofs.Select.Shape

/-!
# Question marks in the SQL of selects

If neither a schema nor the clauses of a select name anything with a question mark, the SQL of the
select is plain.
-/

namespace Tabula

/-! ## Clauses without a question mark -/

mutual

/-- The texts of a shape that stand in the SQL: keys of fields and expressions. -/
def ShapeNode.texts : ShapeNode → List String
  | .field key => [key]
  | .raw expression => [expression]
  | .nested entries => textsOf entries

def ShapeNode.textsOf : List (String × ShapeNode) → List String
  | [] => []
  | (_, n) :: rest => n.texts ++ textsOf rest

end

/-- No alias, key or expression that a select gives holds a question mark. -/
structure Select.Unmarked (q : Select) : Prop where
  label : ∀ j ∈ q.joins, Tabula.Unmarked j.label
  shape : ∀ shape ∈ q.shape, ∀ s ∈ ShapeNode.textsOf shape, Tabula.Unmarked s
  groupBy : ∀ g ∈ q.groupBy, ∀ key ∈ g.keys, Tabula.Unmarked key
  orderBy : ∀ o ∈ q.orderBy, ∀ e ∈ o.keys, Tabula.Unmarked e.1

instance (q : Select) : Decidable q.Unmarked :=
  decidable_of_iff ((∀ j ∈ q.joins, Tabula.Unmarked j.label) ∧
      (∀ shape ∈ q.shape, ∀ s ∈ ShapeNode.textsOf shape, Tabula.Unmarked s) ∧
      (∀ g ∈ q.groupBy, ∀ key ∈ g.keys, Tabula.Unmarked key) ∧
      ∀ o ∈ q.orderBy, ∀ e ∈ o.keys, Tabula.Unmarked e.1)
    ⟨fun ⟨hl, hs, hg, ho⟩ => ⟨hl, hs, hg, ho⟩, fun ⟨hl, hs, hg, ho⟩ => ⟨hl, hs, hg, ho⟩⟩

/-! ## Fields and joins -/

theorem Fields.unmarked_ofTable {t : Table} (ht : t.Unmarked) {scope sqlName : String}
    (hname : Tabula.Unmarked sqlName) : ∀ e ∈ ofTable scope sqlName t, Tabula.Unmarked e.2.sql := by
  intro e he
  obtain ⟨c, hc, rfl⟩ := List.mem_map.1 he
  simp +decide [hname, ht.columnName c hc]

theorem Shape.unmarked_ofTable {t : Table} (ht : t.Unmarked) {scope : String}
    (hscope : Tabula.Unmarked scope) : ∀ s ∈ ShapeNode.textsOf (ofTable scope t),
      Tabula.Unmarked s := by
  have hcolumns : ∀ cs : List Column, (∀ c ∈ cs, Tabula.Unmarked c.key) →
      ∀ s ∈ ShapeNode.textsOf (cs.map fun c => (c.key, .field s!"{scope}.{c.key}")),
        Tabula.Unmarked s := by
    intro cs
    induction cs with
    | nil => simp [ShapeNode.textsOf]
    | cons c cs ih =>
      intro h
      obtain ⟨hc, hcs⟩ := List.forall_mem_cons.1 h
      refine List.forall_mem_cons.2 ⟨?_, ih hcs⟩
      simp +decide [hscope, hc]
  exact hcolumns t.columns ht.columnKey

theorem ShapeNode.textsOf_append (m n : List (String × ShapeNode)) :
    textsOf (m ++ n) = textsOf m ++ textsOf n := by
  induction m with
  | nil => rfl
  | cons e m ih => simp [textsOf, ih]

/-- Nothing in a scope holds a question mark. -/
structure SelectScope.Unmarked (scope : SelectScope) : Prop where
  fields : scope.fields.Unmarked
  shape : ∀ s ∈ ShapeNode.textsOf scope.shape, Tabula.Unmarked s
  joins : ∀ j ∈ scope.joins, j.render.Plain

namespace SelectScope

theorem unmarked_ofTable {t : Table} (ht : t.Unmarked) : (ofTable t).Unmarked where
  fields := Fields.unmarked_ofTable ht ht.name
  shape := Shape.unmarked_ofTable ht ht.key
  joins := by simp [ofTable]

/-- A join under a label without a question mark adds nothing with one. -/
theorem Unmarked.join {s : Schema} (hs : s.Unmarked) {scope scope' : SelectScope}
    (hscope : scope.Unmarked) {j : Join} (hj : Tabula.Unmarked j.label)
    (h : scope.join s j = .ok scope') : scope'.Unmarked := by
  obtain ⟨table, column, operator, field, key, htable, hcolumn, hfield, rfl⟩ := exists_of_join h
  have ht := hs.table table (Schema.mem_of_table htable)
  refine ⟨fun e he => ?_, fun t ht' => ?_, fun p hp => ?_⟩
  · rcases List.mem_append.1 he with he | he
    · exact Fields.unmarked_ofTable ht (unmarked_identifier.2 hj) e he
    · exact hscope.fields e he
  · rw [ShapeNode.textsOf_append] at ht'
    rcases List.mem_append.1 ht' with ht' | ht'
    · exact hscope.shape t ht'
    · exact Shape.unmarked_ofTable ht hj t (by simpa [ShapeNode.textsOf, ShapeNode.texts] using ht')
  · rcases List.mem_append.1 hp with hp | hp
    · exact hscope.joins p hp
    · obtain rfl := List.mem_singleton.1 hp
      have hkind : Tabula.Unmarked j.kind.sql := by cases j.kind <;> decide
      have hoperator : Tabula.Unmarked operator.sql := by cases operator <;> decide
      simp +decide [JoinPlan.render, hkind, hoperator, ht.name, hj, ht.columnName column hcolumn,
        hscope.fields.resolve hfield]

theorem unmarked_of_joins {s : Schema} (hs : s.Unmarked) {t : Table} (ht : t.Unmarked)
    {joins : List Join} (hjoins : ∀ j ∈ joins, Tabula.Unmarked j.label) {scope : SelectScope}
    (h : joins.foldlM (join s) (ofTable t) = .ok scope) : scope.Unmarked :=
  foldlM_induction (fun j hj _ _ hscope hstep => hscope.join hs (hjoins j hj) hstep)
    (unmarked_ofTable ht) h

end SelectScope

/-! ## Selected items -/

namespace SelectItem

mutual

theorem unmarked_ofNode {fields : Fields} (hf : fields.Unmarked) : {n : ShapeNode} →
    {items : List SelectItem} → (∀ s ∈ n.texts, Tabula.Unmarked s) → ofNode fields n = .ok items →
    ∀ i ∈ items, Tabula.Unmarked i.label ∧ Tabula.Unmarked i.sql
  | .field key, items, hn, h => by
    obtain ⟨field, hfield, h⟩ := bind_eq_ok.1 h
    cases h
    simpa using ⟨hn key (by simp [ShapeNode.texts]), hf.resolve hfield⟩
  | .raw expression, items, hn, h => by
    cases h
    simpa using hn expression (by simp [ShapeNode.texts])
  | .nested entries, items, hn, h => unmarked_ofEntries hf hn h

theorem unmarked_ofEntries {fields : Fields} (hf : fields.Unmarked) :
    {entries : List (String × ShapeNode)} → {items : List SelectItem} →
    (∀ s ∈ ShapeNode.textsOf entries, Tabula.Unmarked s) → ofEntries fields entries = .ok items →
    ∀ i ∈ items, Tabula.Unmarked i.label ∧ Tabula.Unmarked i.sql
  | [], items, _, h => by
    cases h
    simp
  | (_, n) :: rest, items, hn, h => by
    obtain ⟨first, hfirst, h⟩ := bind_eq_ok.1 h
    obtain ⟨others, hothers, h⟩ := bind_eq_ok.1 h
    cases h
    have hn₁ := unmarked_ofNode hf (fun s hs => hn s (List.mem_append_left _ hs)) hfirst
    have hn₂ := unmarked_ofEntries hf (fun s hs => hn s (List.mem_append_right _ hs)) hothers
    exact List.forall_mem_append.2 ⟨hn₁, hn₂⟩

end

end SelectItem

/-! ## Plans -/

theorem Fragment.Plain.appendCondition {f : Fragment} (hf : f.Plain) {keyword : String}
    (hkeyword : Tabula.Unmarked keyword) {p : Option Predicate}
    (hp : ∀ p', p = some p' → p'.render.Plain) : (f.appendCondition keyword p).Plain := by
  unfold Fragment.appendCondition
  split
  · exact hf
  · rename_i p'
    dsimp only
    split
    · exact hf
    · exact (hf.appendRaw hkeyword).append (hp p' rfl)

theorem SelectItem.plain_render {i : SelectItem} (hlabel : Tabula.Unmarked i.label)
    (hsql : Tabula.Unmarked i.sql) : i.render.Plain := by
  simp +decide [render, hlabel, hsql]

namespace SelectPlan

variable {s : Schema} {key : String} {q : Select} {p : SelectPlan}

theorem plain_projection (hs : s.Unmarked) (hq : q.Unmarked) (hscope : p.scope.Unmarked)
    (h : p.Plans s key q) : p.projection.Plain := by
  have hshape : ∀ t ∈ ShapeNode.textsOf p.shape, Tabula.Unmarked t := by
    rw [h.shape]
    cases hgiven : q.shape with
    | none => exact hscope.shape
    | some shape => exact hq.shape shape hgiven
  obtain ⟨items, hitems, hdistinct⟩ := h.items
  have hitem := SelectItem.unmarked_ofEntries hscope.fields hshape hitems
  obtain ⟨used, hembeddings⟩ := h.embeddings
  have ht := hs.table p.table (Schema.mem_of_table h.table)
  have hembedding := Embedding.plain_of_ofInclusions hs ht.name hembeddings
  refine Fragment.plain_join (by decide) fun f hf => ?_
  rcases List.mem_append.1 hf with hf | hf
  · obtain ⟨i, hi, rfl⟩ := List.mem_map.1 hf
    obtain ⟨hlabel, hsql⟩ := hitem i (SelectItem.mem_of_mem_distinct (hdistinct ▸ hi))
    exact SelectItem.plain_render hlabel hsql
  · obtain ⟨⟨name, e⟩, he, rfl⟩ := List.mem_map.1 hf
    obtain ⟨hname, hplain⟩ := hembedding _ he
    exact hplain.appendRaw (by simp +decide [hname])

theorem unmarked_grouping (h : ∀ key ∈ p.groupBy, Tabula.Unmarked key) :
    Tabula.Unmarked p.grouping := by
  unfold grouping
  split
  · decide
  · refine unmarked_append.2 ⟨by decide, unmarked_intercalate (by decide) fun s hs => ?_⟩
    obtain ⟨key, hkey, rfl⟩ := List.mem_map.1 hs
    exact unmarked_identifier.2 (h key hkey)

theorem unmarked_ordering (h : ∀ e ∈ p.orderBy, Tabula.Unmarked e.1) :
    Tabula.Unmarked p.ordering := by
  unfold ordering
  split
  · decide
  · refine unmarked_append.2 ⟨by decide, unmarked_intercalate (by decide) fun s hs => ?_⟩
    obtain ⟨⟨key, direction⟩, he, rfl⟩ := List.mem_map.1 hs
    have hdirection : Tabula.Unmarked direction.sql := by cases direction <;> decide
    simp +decide [h _ he, hdirection]

theorem plain_window : p.window.Plain := by
  unfold window
  cases p.limit with
  | none =>
    cases p.offset with
    | none => exact Fragment.plain_empty
    | some m =>
      have hlimit := (Fragment.plain_raw (s := "limit -1")).2 (by decide)
      exact (hlimit.appendRaw (by decide)).append (Fragment.plain_parameter _)
  | some n =>
    have hlimit := ((Fragment.plain_raw (s := "limit")).2 (by decide)).append
      (Fragment.plain_parameter (.integer n))
    cases p.offset with
    | none => exact hlimit
    | some m => exact (hlimit.appendRaw (by decide)).append (Fragment.plain_parameter _)

/-- The SQL of a select that names nothing with a question mark is plain. -/
theorem plain_render (hs : s.Unmarked) (hq : q.Unmarked) (h : p.Plans s key q) :
    p.render.Plain := by
  have ht := hs.table p.table (Schema.mem_of_table h.table)
  have hscope := SelectScope.unmarked_of_joins hs ht hq.label h.scope
  have hfrom : (((Fragment.raw "select").append p.projection).appendRaw
      s!"from {p.table.name}").Plain :=
    ((Fragment.plain_raw.2 (by decide)).append (plain_projection hs hq hscope h)).appendRaw
      (by simp +decide [ht.name])
  have hjoined : ∀ (joins : List JoinPlan) (f : Fragment), f.Plain →
      (∀ j ∈ joins, j.render.Plain) → (joins.foldl (fun f j => f.append j.render) f).Plain := by
    intro joins
    induction joins with
    | nil => exact fun f hf _ => hf
    | cons j joins ih =>
      intro f hf hjoins
      obtain ⟨hj, hjoins⟩ := List.forall_mem_cons.1 hjoins
      exact ih _ (hf.append hj) hjoins
  have hpredicate : ∀ {given : Option Filter} {found : Option Predicate},
      given.mapM (Predicate.ofFilter p.scope.fields) = .ok found →
      ∀ p', found = some p' → p'.render.Plain := by
    intro given found hfound p' hp'
    rcases option_mapM_eq_ok.1 hfound with ⟨-, rfl⟩ | ⟨f, p'', -, rfl, hp''⟩
    · cases hp'
    · cases hp'
      exact Predicate.plain_render_of_ofFilter hscope.fields hp''
  have hwhere : Tabula.Unmarked "where" := by decide
  have hhaving : Tabula.Unmarked "having" := by decide
  have hfiltered :=
    (hjoined p.scope.joins _ hfrom hscope.joins).appendCondition hwhere (hpredicate h.filter)
  have hgroupBy : ∀ key ∈ p.groupBy, Tabula.Unmarked key := by
    rw [h.groupBy]
    cases hgiven : q.groupBy with
    | none => simp
    | some g => exact hq.groupBy g hgiven
  have horderBy : ∀ e ∈ p.orderBy, Tabula.Unmarked e.1 := by
    rw [h.orderBy]
    cases hgiven : q.orderBy with
    | none => simp
    | some o => exact hq.orderBy o hgiven
  have hgrouped :=
    (hfiltered.appendRaw (unmarked_grouping hgroupBy)).appendCondition hhaving (hpredicate h.having)
  exact (hgrouped.appendRaw (unmarked_ordering horderBy)).append plain_window

end SelectPlan

end Tabula
