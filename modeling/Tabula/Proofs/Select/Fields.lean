import Tabula.Proofs.Schema.Lookup
import Tabula.Proofs.Select.Plan

/-!
# The fields of a select

A select knows fields under `<owner>.<column>`, where the owner is the base table, by its key, or a
join, by its label. A key without a dot is short for a field of the base table.
-/

namespace Tabula

namespace Fields

def qualified (owner column : String) : String :=
  s!"{owner}.{column}"

theorem dot_mem_qualified (owner column : String) : '.' ∈ (qualified owner column).toList := by
  have hdot : '.' ∈ (toString ".").toList := by decide
  simp only [qualified, String.toList_append, List.mem_append]
  exact .inl (.inr hdot)

theorem qualified_right_inj {owner a b : String} :
    qualified owner a = qualified owner b ↔ a = b :=
  String.append_right_inj _

/-- Up to its first dot a key is its owner, if the owner has no dot itself. -/
theorem takeWhile_qualified {owner : String} (h : '.' ∉ owner.toList) (column : String) :
    (qualified owner column).toList.takeWhile (· ≠ '.') = owner.toList := by
  have howner : ∀ c ∈ owner.toList, (decide (c ≠ '.')) = true := by
    intro c hc
    exact decide_eq_true fun heq => h (heq ▸ hc)
  have hsplit : (qualified owner column).toList = owner.toList ++ '.' :: column.toList := by
    simp only [qualified, String.toList_append, List.append_assoc]
    rfl
  rw [hsplit, List.takeWhile_append_of_pos howner]
  simp

theorem owner_eq_of_qualified {owner owner' a b : String} (h : '.' ∉ owner.toList)
    (h' : '.' ∉ owner'.toList) (heq : qualified owner a = qualified owner' b) :
    owner = owner' := by
  apply String.toList_injective
  rw [← takeWhile_qualified h a, heq, takeWhile_qualified h' b]

/-! ## Columns of a table -/

theorem get?_ofTable {owner sqlName key : String} {t : Table} {field : Field} :
    (ofTable owner sqlName t).get? key = some field ↔
      ∃ c ∈ t.columns, key = qualified owner c.key ∧ field = ⟨s!"{sqlName}.{c.name}", c⟩ := by
  have hkeys : (ofTable owner sqlName t).keys = (t.columns.map Column.key).map (qualified owner) := by
    simp only [ofTable, Keyed.keys, List.map_map]
    rfl
  have hnodup : (ofTable owner sqlName t).keys.Nodup := by
    rw [hkeys]
    exact t.keys_nodup.map fun a b => qualified_right_inj.1
  rw [Keyed.get?_eq_some_iff hnodup, ofTable, List.mem_map]
  simp only [Prod.mk.injEq, @eq_comm _ key, @eq_comm _ field]
  rfl

/-! ## Resolving -/

theorem resolve_eq_ok {f : Fields} {key : String} {field : Field} :
    f.resolve key = .ok field ↔ f.resolve? key = some field := by
  unfold resolve
  cases f.resolve? key <;> simp

theorem resolve_eq_error {f : Fields} {key : String} (h : f.resolve? key = none) :
    f.resolve key = .error (.columnNotFound key) := by
  rw [resolve, h]

/-- The key that a key without a dot is short for. -/
def full (base key : String) : String :=
  if '.' ∈ key.toList then key else qualified base key

theorem full_qualified (base owner column : String) :
    full base (qualified owner column) = qualified owner column :=
  if_pos (dot_mem_qualified owner column)

@[simp] theorem full_full (base key : String) : full base (full base key) = full base key := by
  by_cases hdot : '.' ∈ key.toList
  · have hfull : full base key = key := if_pos hdot
    rw [hfull, hfull]
  · have hfull : full base key = qualified base key := if_neg hdot
    rw [hfull, full_qualified]

/-- Each field is known under a key with a dot. -/
structure Qualified (f : Fields) (base : String) : Prop where
  base : f.base = some base
  dotted : ∀ key ∈ f.entries.keys, '.' ∈ key.toList

namespace Qualified

variable {f : Fields} {base : String}

theorem resolve?_eq (h : f.Qualified base) (key : String) :
    f.resolve? key = f.entries.get? (full base key) := by
  unfold resolve?
  rw [h.base]
  cases hget : f.entries.get? key with
  | some field =>
    have hmem : key ∈ f.entries.keys := Keyed.get?_isSome_iff.1 (by rw [hget]; rfl)
    rw [full, if_pos (h.dotted key hmem), hget]
  | none =>
    dsimp only
    unfold full
    split
    · exact hget.symm
    · rfl

theorem add (h : f.Qualified base) (owner sqlName : String) (t : Table) :
    (f.add owner sqlName t).Qualified base := by
  refine ⟨h.base, fun key hkey => ?_⟩
  rw [Fields.add, Keyed.keys_append, List.mem_append] at hkey
  rcases hkey with hkey | hkey
  · obtain ⟨field, hfield⟩ := Option.isSome_iff_exists.1 (Keyed.get?_isSome_iff.2 hkey)
    obtain ⟨c, -, rfl, -⟩ := get?_ofTable.1 hfield
    exact dot_mem_qualified owner c.key
  · exact h.dotted key hkey

/-- A key of a new column resolves to that column, any other key as before. -/
theorem resolve?_add (h : f.Qualified base) (owner sqlName : String) (t : Table) (key : String) :
    (f.add owner sqlName t).resolve? key =
      ((ofTable owner sqlName t).get? (full base key)).or (f.resolve? key) := by
  rw [(h.add owner sqlName t).resolve?_eq, h.resolve?_eq, Fields.add, Keyed.get?_append]

end Qualified

theorem qualified_forSelect (t : Table) : (forSelect t).Qualified t.key := by
  have hempty : (⟨some t.key, []⟩ : Fields).Qualified t.key := ⟨rfl, by simp⟩
  simpa [forSelect, Fields.add] using hempty.add t.key t.name t

end Fields

theorem Shape.keys_ofTable (scope : String) (t : Table) :
    Keyed.keys (Shape.ofTable scope t) = t.columns.map Column.key := by
  simp only [Shape.ofTable, Keyed.keys, List.map_map]
  rfl

namespace SelectScope

variable {s : Schema} {t : Table} {joins : List Join} {scope : SelectScope}

/-- The default shape has the columns of the base table and the labels of the joins. -/
theorem keys_shape_of_joins (h : joins.foldlM (join s) (ofTable t) = .ok scope) :
    Keyed.keys scope.shape = t.columns.map Column.key ++ joins.map Join.label := by
  refine joins_induction (P := fun joins scope =>
    Keyed.keys scope.shape = t.columns.map Column.key ++ joins.map Join.label) ?_ ?_ h
  · rw [ofTable, Shape.keys_ofTable, List.map_nil, List.append_nil]
  · intro before scope j scope' hscope hjoin
    obtain ⟨table, condition, column, field, -, -, -, -, -, -, rfl⟩ := join_eq_ok.1 hjoin
    rw [joined, Keyed.keys_append, hscope, List.map_append, List.append_assoc]
    rfl

end SelectScope

end Tabula
