import Tabula.Plan.Select
import Tabula.Proofs.Except

/-!
# The leaves of a shape

A shape is a tree with fields and expressions at its leaves. The select list is made of the leaves
from left to right, and a result is the tree with a value at each leaf; so both sides of a select
can be compared leaf by leaf.
-/

namespace Tabula

/-- What stands at a leaf of a shape. -/
inductive ShapeLeaf where
  | field (key : String)
  | raw (expression : String)
deriving DecidableEq

/-- The text under which a leaf is selected. -/
def ShapeLeaf.label : ShapeLeaf → String
  | field key => key
  | raw expression => expression

namespace Shape

mutual

def leavesOfNode : ShapeNode → List ShapeLeaf
  | .field key => [.field key]
  | .raw expression => [.raw expression]
  | .nested entries => leaves entries

/-- The leaves of a shape, from left to right. -/
def leaves : List (String × ShapeNode) → List ShapeLeaf
  | [] => []
  | (_, n) :: rest => leavesOfNode n ++ leaves rest

end

mutual

def fillNode (value : ShapeLeaf → Json) : ShapeNode → Json
  | .field key => value (.field key)
  | .raw expression => value (.raw expression)
  | .nested entries => .obj (fill value entries)

/-- The members of an object that has the shape: its keys and its nesting, in its order, and a value
at each leaf. -/
def fill (value : ShapeLeaf → Json) : List (String × ShapeNode) → List (String × Json)
  | [] => []
  | (key, n) :: rest => (key, fillNode value n) :: fill value rest

end

theorem keys_fill (value : ShapeLeaf → Json) (shape : Shape) :
    Keyed.keys (fill value shape) = Keyed.keys shape := by
  induction shape with
  | nil => rfl
  | cons e shape ih =>
    rw [fill, Keyed.keys_cons, Keyed.keys_cons, ih]

theorem mem_leaves {entries : List (String × ShapeNode)} {e : String × ShapeNode} {l : ShapeLeaf}
    (he : e ∈ entries) (hl : l ∈ leavesOfNode e.2) : l ∈ leaves entries := by
  induction entries with
  | nil => cases he
  | cons first entries ih =>
    rw [leaves, List.mem_append]
    rcases List.mem_cons.1 he with rfl | he
    · exact .inl hl
    · exact .inr (ih he)

end Shape

/-! ## Selecting -/

namespace SelectItem

/-- The item of a leaf. -/
def ofLeaf (fields : Fields) : ShapeLeaf → Except Error SelectItem
  | .field key => (fun f => ⟨key, f.sql⟩) <$> fields.resolve key
  | .raw expression => .ok ⟨expression, expression⟩

theorem label_of_ofLeaf {fields : Fields} {leaf : ShapeLeaf} {i : SelectItem}
    (h : ofLeaf fields leaf = .ok i) : i.label = leaf.label := by
  cases leaf with
  | field key =>
    obtain ⟨f, -, rfl⟩ := map_eq_ok.1 h
    rfl
  | raw expression =>
    cases h
    rfl

mutual

theorem ofNode_eq (fields : Fields) : (n : ShapeNode) →
    ofNode fields n = (Shape.leavesOfNode n).mapM (ofLeaf fields)
  | .field key => by
    rw [ofNode, Shape.leavesOfNode, List.mapM_cons, ofLeaf]
    cases fields.resolve key with
    | error e => rfl
    | ok f => rfl
  | .raw expression => rfl
  | .nested entries => by
    rw [ofNode, Shape.leavesOfNode]
    exact ofEntries_eq fields entries

/-- The items of a shape are those of its leaves. -/
theorem ofEntries_eq (fields : Fields) : (entries : List (String × ShapeNode)) →
    ofEntries fields entries = (Shape.leaves entries).mapM (ofLeaf fields)
  | [] => rfl
  | (key, n) :: rest => by
    rw [ofEntries, Shape.leaves, List.mapM_append, ofNode_eq fields n, ofEntries_eq fields rest]

end

/-! ### Items of one alias -/

/-- One step of `distinct`. -/
def keep (kept : List SelectItem) (i : SelectItem) : List SelectItem :=
  if kept.any (fun k => k.label == i.label) then kept else kept ++ [i]

theorem any_label_iff {kept : List SelectItem} {label : String} :
    kept.any (fun k => k.label == label) = true ↔ label ∈ kept.map SelectItem.label := by
  simp

theorem nodup_keep {kept : List SelectItem} (h : (kept.map SelectItem.label).Nodup)
    (i : SelectItem) : ((keep kept i).map SelectItem.label).Nodup := by
  unfold keep
  split
  · exact h
  · rename_i hfresh
    rw [any_label_iff] at hfresh
    rw [List.map_append, List.nodup_append]
    refine ⟨h, by simp, ?_⟩
    rintro a ha b hb rfl
    exact hfresh (List.mem_singleton.1 hb ▸ ha)

theorem label_mem_keep {kept : List SelectItem} {i : SelectItem} :
    i.label ∈ (keep kept i).map SelectItem.label := by
  unfold keep
  split
  · rename_i hany
    exact any_label_iff.1 hany
  · simp

theorem mem_keep {kept : List SelectItem} {i k : SelectItem} (h : k ∈ kept) : k ∈ keep kept i := by
  unfold keep
  split
  · exact h
  · exact List.mem_append_left [i] h

/-- Aliases come once. -/
theorem nodup_distinct (items : List SelectItem) :
    ((distinct items).map SelectItem.label).Nodup := by
  change ((items.foldl keep []).map SelectItem.label).Nodup
  refine List.foldlRecOn (motive := fun kept => (kept.map SelectItem.label).Nodup) items keep ?_ ?_
  · exact List.nodup_nil
  · intro kept hkept i hi
    exact nodup_keep hkept i

theorem mem_of_mem_distinct {items : List SelectItem} {i : SelectItem} (h : i ∈ distinct items) :
    i ∈ items := by
  change i ∈ items.foldl keep [] at h
  refine List.foldlRecOn (motive := fun kept => ∀ k ∈ kept, k ∈ items) items keep
    (fun k hk => by cases hk) ?_ i h
  intro kept hkept j hj k hk
  unfold keep at hk
  split at hk
  · exact hkept k hk
  · rcases List.mem_append.1 hk with hk | hk
    · exact hkept k hk
    · exact List.mem_singleton.1 hk ▸ hj

/-- No alias is lost. -/
theorem label_mem_distinct {items : List SelectItem} {i : SelectItem} (h : i ∈ items) :
    i.label ∈ (distinct items).map SelectItem.label := by
  change i.label ∈ (items.foldl keep []).map SelectItem.label
  have hkept : ∀ (items kept : List SelectItem), ∀ k ∈ kept, k ∈ items.foldl keep kept := by
    intro items
    induction items with
    | nil => exact fun kept k hk => hk
    | cons i items ih => exact fun kept k hk => ih _ k (mem_keep hk)
  obtain ⟨before, after, rfl⟩ := List.append_of_mem h
  rw [List.foldl_append, List.foldl_cons]
  obtain ⟨k, hk, hlabel⟩ := List.mem_map.1 (label_mem_keep (i := i))
  exact List.mem_map.2 ⟨k, hkept after _ k hk, hlabel⟩

theorem distinct_eq_nil {items : List SelectItem} : distinct items = [] ↔ items = [] := by
  constructor
  · intro h
    refine List.eq_nil_iff_forall_not_mem.2 fun i hi => ?_
    have hlabel := label_mem_distinct hi
    rw [h] at hlabel
    cases hlabel
  · rintro rfl
    rfl

end SelectItem

/-! ## Reading a row -/

namespace SelectMapper

/-- The value at a leaf. -/
def leaf (fields : Fields) (row : Row) : ShapeLeaf → Except Error Json
  | .field key => do
    let v ← cell row key
    (← fields.resolve key).column.decode v
  | .raw expression => Value.toJson <$> cell row expression

/-- The value at a leaf, if there is one. -/
def leafValue (fields : Fields) (row : Row) (l : ShapeLeaf) : Json :=
  match leaf fields row l with
  | .ok x => x
  | .error _ => .null

section

variable {fields : Fields} {row : Row}

theorem leafValue_of_leaf {l : ShapeLeaf} {x : Json} (h : leaf fields row l = .ok x) :
    leafValue fields row l = x := by
  rw [leafValue, h]

mutual

theorem node_of_leaves {value : ShapeLeaf → Json} : (n : ShapeNode) →
    (∀ l ∈ Shape.leavesOfNode n, leaf fields row l = .ok (value l)) →
    node fields row n = .ok (Shape.fillNode value n)
  | .field key, h => h (.field key) (List.mem_singleton_self _)
  | .raw expression, h => h (.raw expression) (List.mem_singleton_self _)
  | .nested entries, h => by
    rw [node, nodes_of_leaves entries h, map_ok, Shape.fillNode]

/-- With a value at each leaf a row is read as the shape filled with them. -/
theorem nodes_of_leaves {value : ShapeLeaf → Json} : (entries : List (String × ShapeNode)) →
    (∀ l ∈ Shape.leaves entries, leaf fields row l = .ok (value l)) →
    nodes fields row entries = .ok (Shape.fill value entries)
  | [], _ => rfl
  | (key, n) :: rest, h => by
    obtain ⟨hfirst, hrest⟩ := List.forall_mem_append.1 h
    rw [nodes, node_of_leaves n hfirst, ok_bind, nodes_of_leaves rest hrest, ok_bind, Shape.fill]
    rfl

end

mutual

theorem exists_leaf_of_node {e : Error} : (n : ShapeNode) → node fields row n = .error e →
    ∃ l ∈ Shape.leavesOfNode n, leaf fields row l = .error e
  | .field key, h => ⟨.field key, List.mem_singleton_self _, h⟩
  | .raw expression, h => ⟨.raw expression, List.mem_singleton_self _, h⟩
  | .nested entries, h => exists_leaf_of_nodes entries (map_eq_error.1 h)

/-- Reading a row fails at a leaf only. -/
theorem exists_leaf_of_nodes {e : Error} : (entries : List (String × ShapeNode)) →
    nodes fields row entries = .error e → ∃ l ∈ Shape.leaves entries, leaf fields row l = .error e
  | [], h => by
    cases h
  | (key, n) :: rest, h => by
    rcases bind_eq_error.1 h with h | ⟨first, -, h⟩
    · obtain ⟨l, hl, hleaf⟩ := exists_leaf_of_node n h
      exact ⟨l, List.mem_append_left _ hl, hleaf⟩
    rcases bind_eq_error.1 h with h | ⟨others, -, h⟩
    · obtain ⟨l, hl, hleaf⟩ := exists_leaf_of_nodes rest h
      exact ⟨l, List.mem_append_right _ hl, hleaf⟩
    · cases h

end

mutual

theorem exists_value_of_node : (n : ShapeNode) → {j : Json} → node fields row n = .ok j →
    ∀ l ∈ Shape.leavesOfNode n, ∃ x, leaf fields row l = .ok x
  | .field key, j, h, l, hl => by
    obtain rfl := List.mem_singleton.1 hl
    exact ⟨j, h⟩
  | .raw expression, j, h, l, hl => by
    obtain rfl := List.mem_singleton.1 hl
    exact ⟨j, h⟩
  | .nested entries, j, h, l, hl => by
    obtain ⟨members, hmembers, -⟩ := map_eq_ok.1 h
    exact exists_value_of_nodes entries hmembers l hl

/-- A row that is read has a value at each leaf. -/
theorem exists_value_of_nodes : (entries : List (String × ShapeNode)) →
    {members : List (String × Json)} → nodes fields row entries = .ok members →
    ∀ l ∈ Shape.leaves entries, ∃ x, leaf fields row l = .ok x
  | [], members, _, l, hl => by
    cases hl
  | (key, n) :: rest, members, h, l, hl => by
    obtain ⟨first, hfirst, h⟩ := bind_eq_ok.1 h
    obtain ⟨others, hothers, -⟩ := bind_eq_ok.1 h
    rcases List.mem_append.1 hl with hl | hl
    · exact exists_value_of_node n hfirst l hl
    · exact exists_value_of_nodes rest hothers l hl

end

/-- What is read of a node is the node filled with the values of its leaves. -/
theorem exists_fill_of_node {n : ShapeNode} {j : Json} (h : node fields row n = .ok j) :
    ∃ value, (∀ l ∈ Shape.leavesOfNode n, leaf fields row l = .ok (value l)) ∧
      j = Shape.fillNode value n := by
  have hvalue : ∀ l ∈ Shape.leavesOfNode n, leaf fields row l = .ok (leafValue fields row l) := by
    intro l hl
    obtain ⟨x, hx⟩ := exists_value_of_node n h l hl
    rw [hx, leafValue_of_leaf hx]
  refine ⟨leafValue fields row, hvalue, ?_⟩
  rw [node_of_leaves n hvalue] at h
  exact (Except.ok.inj h).symm

/-- Entry by entry, a row is read as what the nodes of the shape become. -/
theorem members_of_nodes : {entries : List (String × ShapeNode)} →
    {members : List (String × Json)} → nodes fields row entries = .ok members →
    List.Forall₂ (fun e m => e.1 = m.1 ∧ node fields row e.2 = .ok m.2) entries members
  | [], members, h => by
    cases h
    exact .nil
  | (key, n) :: rest, members, h => by
    obtain ⟨first, hfirst, h⟩ := bind_eq_ok.1 h
    obtain ⟨others, hothers, h⟩ := bind_eq_ok.1 h
    cases h
    exact .cons ⟨rfl, hfirst⟩ (members_of_nodes hothers)

end

end SelectMapper

end Tabula
