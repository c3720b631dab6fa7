import Tabula.Proofs.Select.Mapping

/-!
# What a mapper looks up

The mapper of a select reads a row by name: under the texts of the leaves of its shape and under
the names of included relations. Those are the aliases of the select list, so whatever else the
store answers makes no difference.
-/

namespace Tabula

namespace SelectMapper

variable {m : SelectMapper} {fields : Fields} {row row' : Row} {j : Json}

/-- The names under which a row is read. -/
def lookups (m : SelectMapper) : List String :=
  (Shape.leaves m.shape).map ShapeLeaf.label ++ Keyed.keys m.inclusion.relations

/-- Two rows have the same values under the names. -/
def Agree (names : List String) (row row' : Row) : Prop :=
  ∀ name ∈ names, row.get? name = row'.get? name

theorem leaf_congr (fields : Fields) : (l : ShapeLeaf) → row.get? l.label = row'.get? l.label →
    leaf fields row l = leaf fields row' l
  | .field key, h => by
    have hcell : row.get? key = row'.get? key := h
    rw [leaf, leaf, cell, cell, hcell]
  | .raw expression, h => by
    have hcell : row.get? expression = row'.get? expression := h
    rw [leaf, leaf, cell, cell, hcell]

mutual

theorem node_congr : (n : ShapeNode) →
    Agree ((Shape.leavesOfNode n).map ShapeLeaf.label) row row' →
    node fields row n = node fields row' n
  | .field key, h => leaf_congr fields (.field key) (h key (List.mem_singleton_self _))
  | .raw expression, h =>
    leaf_congr fields (.raw expression) (h expression (List.mem_singleton_self _))
  | .nested entries, h => by
    rw [node, node, nodes_congr entries h]

/-- What is read of a shape is read under the texts of its leaves. -/
theorem nodes_congr : (entries : List (String × ShapeNode)) →
    Agree ((Shape.leaves entries).map ShapeLeaf.label) row row' →
    nodes fields row entries = nodes fields row' entries
  | [], _ => rfl
  | (key, n) :: rest, h => by
    rw [Shape.leaves, List.map_append] at h
    obtain ⟨hfirst, hrest⟩ := List.forall_mem_append.1 h
    rw [nodes, nodes, node_congr n hfirst, nodes_congr rest hrest]

end

/-- Rows that agree under the names that are looked up are read alike. -/
theorem mapRow_congr (h : Agree m.lookups row row') : m.mapRow row = m.mapRow row' := by
  obtain ⟨hleaves, hrelations⟩ := List.forall_mem_append.1 h
  have hincluded : ∀ i ∈ m.inclusion.relations, m.included row i = m.included row' i := by
    intro i hi
    rw [included, included, hrelations i.1 (List.mem_map_of_mem hi)]
  have hall : m.inclusion.relations.mapM (fun i => (fun j => (i.1, j)) <$> m.included row i) =
      m.inclusion.relations.mapM fun i => (fun j => (i.1, j)) <$> m.included row' i :=
    mapM_congr fun i hi => by rw [hincluded i hi]
  rw [mapRow_eq, mapRow_eq, nodes_congr m.shape hleaves, hall]

theorem get?_of_cell {name : String} {v : Value} (h : cell row name = .ok v) :
    row.get? name = some v := by
  unfold cell at h
  split at h
  · rename_i hget
    cases h
    exact hget
  · cases h

theorem exists_cell_of_leaf : (l : ShapeLeaf) → leaf fields row l = .ok j →
    ∃ v, row.get? l.label = some v
  | .field key, h => by
    obtain ⟨v, hcell, -⟩ := bind_eq_ok.1 h
    exact ⟨v, get?_of_cell hcell⟩
  | .raw expression, h => by
    obtain ⟨v, hcell, -⟩ := map_eq_ok.1 h
    exact ⟨v, get?_of_cell hcell⟩

/-- A row that can be read has a value under the text of every leaf. -/
theorem exists_cell_of_mapRow (h : m.mapRow row = .ok j) {l : ShapeLeaf}
    (hl : l ∈ Shape.leaves m.shape) : ∃ v, row.get? l.label = some v := by
  rw [mapRow_eq] at h
  obtain ⟨members, hmembers, -⟩ := bind_eq_ok.1 h
  obtain ⟨x, hx⟩ := exists_value_of_nodes m.shape hmembers l hl
  exact exists_cell_of_leaf l hx

end SelectMapper

/-- The mapper looks up the aliases of the select list. -/
theorem SelectPlan.Plans.mem_lookups_iff {s : Schema} {key : String} {q : Select} {p : SelectPlan}
    (h : p.Plans s key q) {name : String} :
    name ∈ (SelectMapper.mk s p.table.key p.scope.fields p.shape p.inclusion).lookups ↔
      name ∈ p.labels := by
  rw [SelectMapper.lookups, labels, List.mem_append, List.mem_append, h.mem_labels_items,
    h.names_eq, List.mem_map]

end Tabula
