import Tabula.Schema.Basic
import Tabula.Proofs.Except
import Mathlib.Data.List.Nodup

/-!
# Looking tables, columns and relations up

What is found belongs to where it was looked for.
-/

namespace Tabula

/-- Under distinct keys an entry is found by its key. -/
theorem find?_key_eq_some {α : Type} {f : α → String} {xs : List α} (h : (xs.map f).Nodup)
    {key : String} {x : α} :
    xs.find? (fun y => f y == key) = some x ↔ x ∈ xs ∧ f x = key := by
  constructor
  · intro hfind
    exact ⟨List.mem_of_find?_eq_some hfind, by simpa using List.find?_some hfind⟩
  · rintro ⟨hx, rfl⟩
    cases hfind : xs.find? (fun y => f y == f x) with
    | none => exact absurd (List.find?_eq_none.1 hfind x hx) (by simp)
    | some y =>
      have hkey : f y = f x := by simpa using List.find?_some hfind
      rw [List.inj_on_of_nodup_map h (List.mem_of_find?_eq_some hfind) hx hkey]

namespace Table

variable {t : Table} {key : String} {c : Column}

theorem mem_of_column? (h : t.column? key = some c) : c ∈ t.columns :=
  List.mem_of_find?_eq_some h

theorem column_eq_ok : t.column key = .ok c ↔ t.column? key = some c := by
  unfold column
  cases t.column? key <;> simp

theorem column_eq_ok_iff : t.column key = .ok c ↔ c ∈ t.columns ∧ c.key = key :=
  column_eq_ok.trans (find?_key_eq_some t.keys_nodup)

/-- A column is found under its key, since the keys of a table are distinct. -/
theorem column?_key (h : c ∈ t.columns) : t.column? c.key = some c :=
  (find?_key_eq_some t.keys_nodup).2 ⟨h, rfl⟩

theorem column?_eq_none : t.column? key = none ↔ key ∉ t.columns.map Column.key := by
  rw [column?, List.find?_eq_none]
  simp

theorem isSome_column? : (t.column? key).isSome = true ↔ key ∈ t.columns.map Column.key := by
  rw [Option.isSome_iff_ne_none, Ne, column?_eq_none, not_not]

theorem exists_column : (∃ c, t.column key = .ok c) ↔ key ∈ t.columns.map Column.key := by
  simp [column_eq_ok_iff]

/-- The columns of keys have these keys. -/
theorem keys_of_mapM_column {keys : List String} {columns : List Column}
    (h : keys.mapM t.column = .ok columns) :
    keys = columns.map Column.key ∧ ∀ c ∈ columns, c ∈ t.columns := by
  constructor
  · have hkeys := map_eq_map_of_forall₂ (f := id) (g := Column.key)
      (fun _ _ hc => (column_eq_ok_iff.1 hc).2.symm) (mapM_eq_ok.1 h)
    rwa [List.map_id] at hkeys
  · intro c hc
    obtain ⟨key, -, hkey⟩ := exists_mem_of_mapM_eq_ok h hc
    exact (column_eq_ok_iff.1 hkey).1

end Table

namespace Schema

variable {s : Schema} {name key : String} {t : Table} {r : Relation}

theorem tableNamed_eq_ok : s.tableNamed name = .ok t ↔ s.tableNamed? name = some t := by
  unfold tableNamed
  cases s.tableNamed? name <;> simp

theorem mem_of_tableNamed (h : s.tableNamed name = .ok t) : t ∈ s.tables :=
  List.mem_of_find?_eq_some (tableNamed_eq_ok.1 h)

theorem table_eq_ok : s.table key = .ok t ↔ s.table? key = some t := by
  unfold table
  cases s.table? key <;> simp

theorem mem_of_table (h : s.table key = .ok t) : t ∈ s.tables :=
  List.mem_of_find?_eq_some (table_eq_ok.1 h)

/-- A relation is found in the relations of the table of the key. -/
theorem exists_of_relation (h : s.relation key name = .ok r) :
    ∃ t g, s.table key = .ok t ∧ g ∈ s.relations ∧ g.table = t.name ∧
      g.fields.get? name = some r := by
  unfold relation at h
  split at h
  · rename_i r' hr
    cases h
    obtain ⟨g, hg, hname⟩ := Option.bind_eq_some_iff.1 hr
    obtain ⟨t, ht, hfind⟩ := Option.bind_eq_some_iff.1 hg
    exact ⟨t, g, table_eq_ok.2 ht, List.mem_of_find?_eq_some hfind,
      by simpa using List.find?_some hfind, hname⟩
  · cases h

end Schema

end Tabula
