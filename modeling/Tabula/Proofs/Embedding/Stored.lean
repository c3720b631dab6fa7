import Tabula.Plan.Embedding
import Tabula.Proofs.Except
import Tabula.Proofs.Column.Embedded

/-!
# Stored rows of an embedding

The rows that an embedding finds in the store, each with the rows that the embeddings inside of it
find. As JSON they are an object for each row: its columns, then what is embedded in it.
-/

namespace Tabula

mutual

/-- A row: its columns with their values, then what is embedded in it. -/
inductive StoredRow where
  | mk (cells : List (Column × Value)) (inner : List (String × Stored))

/-- What an embedding finds: a row or none for one, rows for many. -/
inductive Stored where
  | absent
  | one (row : StoredRow)
  | many (rows : List StoredRow)

end

/-! ## Values -/

mutual

/-- The values, with their columns. -/
def Stored.cells : Stored → List (Column × Value)
  | .absent => []
  | .one row => row.cells
  | .many rows => StoredRow.allCells rows

def StoredRow.cells : StoredRow → List (Column × Value)
  | .mk cells inner => cells ++ Stored.innerCells inner

def StoredRow.allCells : List StoredRow → List (Column × Value)
  | [] => []
  | row :: rows => row.cells ++ StoredRow.allCells rows

def Stored.innerCells : List (String × Stored) → List (Column × Value)
  | [] => []
  | (_, stored) :: rest => stored.cells ++ Stored.innerCells rest

end

/-! ## JSON -/

section Json

variable (f : Column → Value → Json)

mutual

/-- The rows as JSON, given the JSON of each value. -/
def Stored.toJson : Stored → Json
  | .absent => .null
  | .one row => .obj row.members
  | .many rows => .arr ((StoredRow.allMembers rows).map .obj)

def StoredRow.members : StoredRow → List (String × Json)
  | .mk cells inner =>
    cells.map (fun cell => (cell.1.key, f cell.1 cell.2)) ++ Stored.properties inner

def StoredRow.allMembers : List StoredRow → List (List (String × Json))
  | [] => []
  | row :: rows => row.members :: StoredRow.allMembers rows

def Stored.properties : List (String × Stored) → List (String × Json)
  | [] => []
  | (name, stored) :: rest => (name, stored.toJson) :: Stored.properties rest

end

end Json

/-! ## Traversal -/

section Traverse

variable (d : Column → Value → Except Error Json)

/-- The members of columns, decoded one after another. -/
def StoredRow.columns (cells : List (Column × Value)) : Except Error (List (String × Json)) :=
  cells.mapM fun cell => (fun j => (cell.1.key, j)) <$> d cell.1 cell.2

mutual

/-- The rows as JSON, their values decoded one after another. -/
def Stored.traverse : Stored → Except Error Json
  | .absent => .ok .null
  | .one row => .obj <$> row.traverse
  | .many rows => (fun all => .arr (all.map .obj)) <$> StoredRow.traverseAll rows

def StoredRow.traverse : StoredRow → Except Error (List (String × Json))
  | .mk cells inner => do
    let columns ← StoredRow.columns d cells
    return columns ++ (← Stored.traverseInner inner)

def StoredRow.traverseAll : List StoredRow → Except Error (List (List (String × Json)))
  | [] => .ok []
  | row :: rows => do
    let members ← row.traverse
    return members :: (← StoredRow.traverseAll rows)

def Stored.traverseInner : List (String × Stored) → Except Error (List (String × Json))
  | [] => .ok []
  | (name, stored) :: rest => do
    let j ← stored.traverse
    return (name, j) :: (← Stored.traverseInner rest)

end

end Traverse

variable {d : Column → Value → Except Error Json} {f : Column → Value → Json}

theorem StoredRow.columns_of_forall {cells : List (Column × Value)}
    (h : ∀ cell ∈ cells, d cell.1 cell.2 = .ok (f cell.1 cell.2)) :
    columns d cells = .ok (cells.map fun cell => (cell.1.key, f cell.1 cell.2)) := by
  rw [columns, mapM_eq_ok, List.forall₂_map_right_iff, List.forall₂_same]
  intro cell hcell
  rw [h cell hcell, map_ok]

mutual

/-- Values that can all be decoded are decoded in their places. -/
theorem Stored.traverse_of_forall : (stored : Stored) →
    (∀ cell ∈ stored.cells, d cell.1 cell.2 = .ok (f cell.1 cell.2)) →
    stored.traverse d = .ok (stored.toJson f)
  | .absent, _ => rfl
  | .one row, h => by
    rw [Stored.traverse, StoredRow.traverse_of_forall row h, map_ok, Stored.toJson]
  | .many rows, h => by
    rw [Stored.traverse, StoredRow.traverseAll_of_forall rows h, map_ok, Stored.toJson]

theorem StoredRow.traverse_of_forall : (row : StoredRow) →
    (∀ cell ∈ row.cells, d cell.1 cell.2 = .ok (f cell.1 cell.2)) →
    row.traverse d = .ok (row.members f)
  | .mk cells inner, h => by
    have hcells := fun cell hcell => h cell (List.mem_append_left _ hcell)
    have hinner := fun cell hcell => h cell (List.mem_append_right _ hcell)
    rw [StoredRow.traverse, StoredRow.columns_of_forall hcells, ok_bind,
      Stored.traverseInner_of_forall inner hinner, ok_bind, pure_eq_ok, StoredRow.members]

theorem StoredRow.traverseAll_of_forall : (rows : List StoredRow) →
    (∀ cell ∈ StoredRow.allCells rows, d cell.1 cell.2 = .ok (f cell.1 cell.2)) →
    StoredRow.traverseAll d rows = .ok (StoredRow.allMembers f rows)
  | [], _ => rfl
  | row :: rows, h => by
    have hrow := fun cell hcell => h cell (List.mem_append_left _ hcell)
    have hrows := fun cell hcell => h cell (List.mem_append_right _ hcell)
    rw [StoredRow.traverseAll, StoredRow.traverse_of_forall row hrow, ok_bind,
      StoredRow.traverseAll_of_forall rows hrows, ok_bind, pure_eq_ok, StoredRow.allMembers]

theorem Stored.traverseInner_of_forall : (inner : List (String × Stored)) →
    (∀ cell ∈ Stored.innerCells inner, d cell.1 cell.2 = .ok (f cell.1 cell.2)) →
    Stored.traverseInner d inner = .ok (Stored.properties f inner)
  | [], _ => rfl
  | (name, stored) :: rest, h => by
    have hstored := fun cell hcell => h cell (List.mem_append_left _ hcell)
    have hrest := fun cell hcell => h cell (List.mem_append_right _ hcell)
    rw [Stored.traverseInner, Stored.traverse_of_forall stored hstored, ok_bind,
      Stored.traverseInner_of_forall rest hrest, ok_bind, pure_eq_ok, Stored.properties]

end

theorem StoredRow.forall_of_columns {cells : List (Column × Value)} {members : List (String × Json)}
    (h : columns d cells = .ok members) : ∀ cell ∈ cells, ∃ j, d cell.1 cell.2 = .ok j := by
  intro cell hcell
  obtain ⟨member, hmember⟩ := exists_mapM_eq_ok.1 ⟨members, h⟩ cell hcell
  obtain ⟨j, hj, -⟩ := map_eq_ok.1 hmember
  exact ⟨j, hj⟩

mutual

theorem Stored.forall_of_traverse : (stored : Stored) → {j : Json} →
    stored.traverse d = .ok j → ∀ cell ∈ stored.cells, ∃ j, d cell.1 cell.2 = .ok j
  | .absent, j, _ => by simp [Stored.cells]
  | .one row, j, h => by
    rw [Stored.traverse] at h
    obtain ⟨members, hmembers, -⟩ := map_eq_ok.1 h
    exact StoredRow.forall_of_traverse row hmembers
  | .many rows, j, h => by
    rw [Stored.traverse] at h
    obtain ⟨all, hall, -⟩ := map_eq_ok.1 h
    exact StoredRow.forall_of_traverseAll rows hall

theorem StoredRow.forall_of_traverse : (row : StoredRow) → {members : List (String × Json)} →
    row.traverse d = .ok members → ∀ cell ∈ row.cells, ∃ j, d cell.1 cell.2 = .ok j
  | .mk cells inner, members, h => by
    rw [StoredRow.traverse] at h
    obtain ⟨columns, hcolumns, h⟩ := bind_eq_ok.1 h
    obtain ⟨properties, hproperties, -⟩ := bind_eq_ok.1 h
    exact List.forall_mem_append.2
      ⟨StoredRow.forall_of_columns hcolumns, Stored.forall_of_traverseInner inner hproperties⟩

theorem StoredRow.forall_of_traverseAll : (rows : List StoredRow) →
    {all : List (List (String × Json))} → StoredRow.traverseAll d rows = .ok all →
    ∀ cell ∈ StoredRow.allCells rows, ∃ j, d cell.1 cell.2 = .ok j
  | [], all, _ => by simp [StoredRow.allCells]
  | row :: rows, all, h => by
    rw [StoredRow.traverseAll] at h
    obtain ⟨members, hmembers, h⟩ := bind_eq_ok.1 h
    obtain ⟨others, hothers, -⟩ := bind_eq_ok.1 h
    exact List.forall_mem_append.2
      ⟨StoredRow.forall_of_traverse row hmembers, StoredRow.forall_of_traverseAll rows hothers⟩

theorem Stored.forall_of_traverseInner : (inner : List (String × Stored)) →
    {properties : List (String × Json)} → Stored.traverseInner d inner = .ok properties →
    ∀ cell ∈ Stored.innerCells inner, ∃ j, d cell.1 cell.2 = .ok j
  | [], properties, _ => by simp [Stored.innerCells]
  | (name, stored) :: rest, properties, h => by
    rw [Stored.traverseInner] at h
    obtain ⟨j, hj, h⟩ := bind_eq_ok.1 h
    obtain ⟨others, hothers, -⟩ := bind_eq_ok.1 h
    exact List.forall_mem_append.2
      ⟨Stored.forall_of_traverse stored hj, Stored.forall_of_traverseInner rest hothers⟩

end

/-- If all values can be decoded, they are decoded by one function. -/
theorem exists_decoded {cells : List (Column × Value)}
    (h : ∀ cell ∈ cells, ∃ j, d cell.1 cell.2 = .ok j) :
    ∃ f : Column → Value → Json, ∀ cell ∈ cells, d cell.1 cell.2 = .ok (f cell.1 cell.2) := by
  refine ⟨fun c v => (d c v).toOption.getD .null, fun cell hcell => ?_⟩
  obtain ⟨j, hj⟩ := h cell hcell
  simp [hj, Except.toOption]

theorem Stored.exists_traverse {stored : Stored} :
    (∃ j, stored.traverse d = .ok j) ↔ ∀ cell ∈ stored.cells, ∃ j, d cell.1 cell.2 = .ok j := by
  constructor
  · rintro ⟨j, hj⟩
    exact Stored.forall_of_traverse stored hj
  · intro h
    obtain ⟨f, hf⟩ := exists_decoded h
    exact ⟨stored.toJson f, Stored.traverse_of_forall stored hf⟩

/-- A traversal keeps all but the values. -/
theorem Stored.eq_of_traverse {stored : Stored} {j : Json} (h : stored.traverse d = .ok j) :
    ∃ f : Column → Value → Json,
      (∀ cell ∈ stored.cells, d cell.1 cell.2 = .ok (f cell.1 cell.2)) ∧ j = stored.toJson f := by
  obtain ⟨f, hf⟩ := exists_decoded (Stored.forall_of_traverse stored h)
  rw [Stored.traverse_of_forall stored hf] at h
  exact ⟨f, hf, (Except.ok.inj h).symm⟩

/-! ## Fitting an embedding -/

mutual

/-- The rows are such as the embedding may find: of its kind and its table, with values that can be
embedded, and rows of the embeddings inside of it. -/
def Stored.Fits : Stored → Embedding → Prop
  | .absent, e => e.kind = .one
  | .one row, e => e.kind = .one ∧ row.Fits e
  | .many rows, e => e.kind = .many ∧ StoredRow.AllFit rows e

def StoredRow.Fits : StoredRow → Embedding → Prop
  | .mk cells inner, e =>
    cells.map Prod.fst = e.table.columns ∧ (∀ cell ∈ cells, cell.1.Embeddable cell.2) ∧
      Stored.InnerFit inner e.nested

def StoredRow.AllFit : List StoredRow → Embedding → Prop
  | [], _ => True
  | row :: rows, e => row.Fits e ∧ StoredRow.AllFit rows e

def Stored.InnerFit : List (String × Stored) → List (String × Embedding) → Prop
  | [], [] => True
  | (name, stored) :: rest, (name', e) :: es =>
    name = name' ∧ stored.Fits e ∧ Stored.InnerFit rest es
  | _, _ => False

end

end Tabula
