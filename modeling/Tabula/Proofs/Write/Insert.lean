import Tabula.Plan.Insert
import Tabula.Proofs.Schema.Assembled
import Tabula.Proofs.Write.Text
import Mathlib.Data.List.Perm.Basic
import Mathlib.Data.List.Perm.Subperm

/-!
# What an insert writes

The keys of the first row are the columns of an insert. An insert compiles if every row has these
keys and its values can be stored; then each row is a tuple of placeholders, and the values are
bound row by row in the order of the columns, in whatever order a row gives them. Without keys there
is one row, that of the defaults.
-/

namespace Tabula

/-! ## Rows under the keys of the first -/

namespace Keyed

variable {α : Type} {m n : Keyed α}

theorem get?_of_perm (h : m.Perm n) (hm : m.keys.Nodup) (key : String) :
    m.get? key = n.get? key := by
  have hn : n.keys.Nodup := (h.map Prod.fst).nodup hm
  refine Option.ext fun a => ?_
  rw [get?_eq_some_iff hm, get?_eq_some_iff hn, h.mem_iff]

theorem has_of_perm (h : m.Perm n) (key : String) : m.has key = n.has key := by
  rw [Bool.eq_iff_iff, has_iff, has_iff]
  exact (h.map Prod.fst).mem_iff

end Keyed

namespace Json.Object

/-- The members have these keys, in any order. -/
def HasKeys (o : Object) (keys : List String) : Prop :=
  ∀ key, key ∈ o.members.keys ↔ key ∈ keys

theorem hasKeys_iff {o : Object} {keys : List String} (hkeys : keys.Nodup) :
    o.HasKeys keys ↔ o.members.length = keys.length ∧ keys.all o.members.has = true := by
  have hlength : o.members.keys.length = o.members.length := List.length_map _
  constructor
  · intro h
    have hperm := (List.perm_ext_iff_of_nodup o.distinct hkeys).2 h
    refine ⟨hlength.symm.trans hperm.length_eq, List.all_eq_true.2 fun key hkey => ?_⟩
    exact Keyed.has_iff.2 ((h key).2 hkey)
  · rintro ⟨hsame, hall⟩ key
    have hsubset : keys ⊆ o.members.keys := fun key hkey =>
      Keyed.has_iff.1 (List.all_eq_true.1 hall key hkey)
    have hperm := (List.subperm_of_subset hkeys hsubset).perm_of_length_le (by omega)
    exact hperm.symm.mem_iff

end Json.Object

namespace InsertPlan

/-- The row has the keys of the columns, and these are its values under them in stored form. -/
structure Stores (columns : List Column) (o : Json.Object) (values : List Value) : Prop where
  keys : o.HasKeys (columns.map Column.key)
  encoded : (columns.mapM fun c => c.encode ((o.members.get? c.key).getD .null)) = .ok values

section

variable {t : Table} {keys : List String} {columns : List Column} {index : Nat} {o o' : Json.Object}
  {os os' : List Json.Object}

/-- A row is made column by column. -/
theorem row_eq (hkeys : keys = columns.map Column.key) : row t keys columns index o =
    if o.members.length ≠ keys.length ∨ ¬ keys.all o.members.has then
      .error (.invalidStatement (.keySetDiffers t.key index))
    else columns.mapM fun c => c.encode ((o.members.get? c.key).getD .null) := by
  have hzip : ((keys.zip columns).mapM fun e => e.2.encode ((o.members.get? e.1).getD .null)) =
      columns.mapM fun c => c.encode ((o.members.get? c.key).getD .null) := by
    rw [hkeys, ← List.map_prod_right_eq_zip, List.mapM_map]
    rfl
  rw [← hzip]
  rfl

theorem row_eq_ok (hkeys : keys = columns.map Column.key) (hdistinct : keys.Nodup)
    {values : List Value} :
    row t keys columns index o = .ok values ↔ Stores columns o values := by
  have hiff := Json.Object.hasKeys_iff (o := o) hdistinct
  rw [row_eq hkeys]
  rw [hkeys] at hiff ⊢
  split
  · rename_i hdiffers
    constructor
    · intro h
      cases h
    · intro h
      obtain ⟨hlength, hall⟩ := hiff.1 h.keys
      exact hdiffers.elim (fun hne => absurd hlength hne) fun hnot => absurd hall hnot
  · rename_i hsame
    obtain ⟨hlength, hall⟩ := not_or.1 hsame
    have hkeys := hiff.2 ⟨not_not.1 hlength, not_not.1 hall⟩
    exact ⟨fun h => ⟨hkeys, h⟩, fun h => h.encoded⟩

theorem rowsFrom_eq_ok (hkeys : keys = columns.map Column.key) (hdistinct : keys.Nodup)
    {rows : List (List Value)} :
    rowsFrom t keys columns index os = .ok rows ↔ List.Forall₂ (Stores columns) os rows := by
  induction os generalizing index rows with
  | nil =>
    rw [rowsFrom, List.forall₂_nil_left_iff, Except.ok.injEq]
    exact eq_comm
  | cons o os ih =>
    rw [rowsFrom, bind_eq_ok, List.forall₂_cons_left_iff]
    constructor
    · rintro ⟨values, hvalues, h⟩
      obtain ⟨others, hothers, h⟩ := bind_eq_ok.1 h
      cases h
      exact ⟨values, others, (row_eq_ok hkeys hdistinct).1 hvalues, ih.1 hothers, rfl⟩
    · rintro ⟨values, others, hvalues, hothers, rfl⟩
      refine ⟨values, (row_eq_ok hkeys hdistinct).2 hvalues, ?_⟩
      exact bind_eq_ok.2 ⟨others, ih.2 hothers, rfl⟩

/-- The order of the members of a row does not matter. -/
theorem row_of_perm (h : o.members.Perm o'.members) :
    row t keys columns index o = row t keys columns index o' := by
  have hhas : o.members.has = o'.members.has := funext (Keyed.has_of_perm h)
  have hget : o.members.get? = o'.members.get? := funext (Keyed.get?_of_perm h o.distinct)
  rw [row, row, h.length_eq, hhas, hget]

theorem rowsFrom_of_perm (h : List.Forall₂ (fun o o' => o.members.Perm o'.members) os os') :
    rowsFrom t keys columns index os = rowsFrom t keys columns index os' := by
  induction h generalizing index with
  | nil => rfl
  | cons ho _ ih => rw [rowsFrom, rowsFrom, row_of_perm ho, ih]

/-- Under each key of a row is a value. -/
theorem exists_value {columns : List Column} (h : o.HasKeys (columns.map Column.key)) {c : Column}
    (hc : c ∈ columns) : ∃ j, o.members.get? c.key = some j :=
  Option.isSome_iff_exists.1
    (Keyed.get?_isSome_iff.2 ((h c.key).2 (List.mem_map_of_mem hc)))

/-- A row with the keys of the columns can be stored if the columns of its keys take its values. -/
theorem exists_stores (hcolumns : ∀ c ∈ columns, c ∈ t.columns)
    (hkeys : o.HasKeys (columns.map Column.key)) :
    (∃ values, Stores columns o values) ↔
      ∀ e ∈ o.members, ∀ c ∈ t.columns, c.key = e.1 → ∃ v, c.encode e.2 = .ok v := by
  have hstores : (∃ values, Stores columns o values) ↔
      ∀ c ∈ columns, ∃ v, c.encode ((o.members.get? c.key).getD .null) = .ok v :=
    ⟨fun ⟨values, h⟩ => exists_mapM_eq_ok.1 ⟨values, h.encoded⟩, fun h =>
      (exists_mapM_eq_ok.2 h).imp fun values hvalues => ⟨hkeys, hvalues⟩⟩
  rw [hstores]
  constructor
  · rintro h ⟨k, j⟩ he c hc rfl
    have hmem : c.key ∈ o.members.keys := List.mem_map_of_mem (f := Prod.fst) he
    obtain ⟨c', hc', hkey⟩ := List.mem_map.1 ((hkeys c.key).1 hmem)
    obtain rfl : c' = c := List.inj_on_of_nodup_map t.keys_nodup (hcolumns c' hc') hc hkey
    have hget := (Keyed.get?_eq_some_iff o.distinct).2 he
    simpa [hget] using h c' hc'
  · intro h c hc
    obtain ⟨j, hget⟩ := exists_value hkeys hc
    rw [hget]
    exact h _ (Keyed.mem_of_get? hget) c (hcolumns c hc) rfl

end

end InsertPlan

/-! ## Plans -/

/-- The rows that an insert is given. -/
def Insert.rows (q : Insert) : List Json.Object :=
  (q.values.map Values.rows).getD []

namespace InsertPlan

variable {s : Schema} {key : String} {q : Insert} {p : InsertPlan} {t : Table} {first : Json.Object}
  {others : List Json.Object} {columns : List Column}

/-- The rows in stored form, after the columns have been found. -/
def stored (t : Table) (first : Json.Object) (others : List Json.Object) (columns : List Column) :
    Except Error (List (List Value)) :=
  if columns.isEmpty then
    if others.isEmpty then .ok [] else .error (.invalidStatement (.mixedRows t.key))
  else rowsFrom t first.members.keys columns 0 (first :: others)

/-- A row of defaults stands alone, and other rows have the keys of the columns. -/
def StoresAll (first : Json.Object) (others : List Json.Object) (columns : List Column)
    (rows : List (List Value)) : Prop :=
  (columns = [] ∧ others = [] ∧ rows = []) ∨
    (columns ≠ [] ∧ List.Forall₂ (Stores columns) (first :: others) rows)

theorem stored_eq_ok (hkeys : first.members.keys = columns.map Column.key)
    {rows : List (List Value)} :
    stored t first others columns = .ok rows ↔ StoresAll first others columns rows := by
  rw [stored, StoresAll]
  cases columns with
  | nil =>
    cases others with
    | nil => simp [eq_comm]
    | cons o others => simp
  | cons c columns => simp [rowsFrom_eq_ok hkeys first.distinct]

/-- The plan consists of what the clauses of the insert have been resolved to. -/
structure Plans (s : Schema) (key : String) (q : Insert) (first : Json.Object)
    (others : List Json.Object) (p : InsertPlan) : Prop where
  table : s.table key = .ok p.table
  given : q.rows = first :: others
  columns : first.members.keys.mapM p.table.column = .ok p.columns
  rows : StoresAll first others p.columns p.rows
  returning : q.returning.mapM (Returning.plan p.table) = .ok p.returning

/-- The steps of a plan, one after another. -/
theorem ofInsert_eq : ofInsert s key q = (do
    let t ← s.table key
    match q.rows with
    | [] => .error (.missingValues t.key)
    | first :: others => do
      let columns ← first.members.keys.mapM t.column
      let rows ← stored t first others columns
      let returning ← q.returning.mapM (Returning.plan t)
      return ⟨t, columns, rows, returning⟩) := by
  unfold ofInsert Insert.rows stored
  congr 1
  funext t
  cases (q.values.map Values.rows).getD [] with
  | nil => rfl
  | cons first others =>
    dsimp only
    congr 1
    funext columns
    split
    · split <;> rfl
    · rfl

theorem ofInsert_eq_ok :
    ofInsert s key q = .ok p ↔ ∃ first others, Plans s key q first others p := by
  rw [ofInsert_eq, bind_eq_ok]
  constructor
  · rintro ⟨t, ht, h⟩
    split at h
    · cases h
    rename_i first others hgiven
    obtain ⟨columns, hcolumns, h⟩ := bind_eq_ok.1 h
    obtain ⟨rows, hrows, h⟩ := bind_eq_ok.1 h
    obtain ⟨returning, hreturning, h⟩ := bind_eq_ok.1 h
    cases h
    obtain ⟨hkeys, -⟩ := Table.keys_of_mapM_column hcolumns
    exact ⟨first, others, ht, hgiven, hcolumns, (stored_eq_ok hkeys).1 hrows, hreturning⟩
  · rintro ⟨first, others, h⟩
    obtain ⟨hkeys, -⟩ := Table.keys_of_mapM_column h.columns
    refine ⟨p.table, h.table, ?_⟩
    simp only [h.given]
    exact bind_eq_ok.2 ⟨_, h.columns, bind_eq_ok.2 ⟨_, (stored_eq_ok hkeys).2 h.rows,
      bind_eq_ok.2 ⟨_, h.returning, rfl⟩⟩⟩

end InsertPlan

/-! ## Inserts that can be compiled -/

theorem Returning.exists_plan {t : Table} {r : Returning} : (∃ columns, plan t r = .ok columns) ↔
    r.columns ≠ [] ∧ ∀ key ∈ r.columns, key ∈ t.columns.map Column.key := by
  rw [plan]
  split
  · rename_i hempty
    simp [List.isEmpty_iff.1 hempty]
  · rename_i hne
    simp only [exists_mapM_eq_ok, Table.exists_column]
    exact ⟨fun h => ⟨mt List.isEmpty_iff.2 hne, h⟩, fun h => h.2⟩

/-- The rows can be inserted into the table and the columns can come back. -/
structure Insert.Fits (t : Table) (first : Json.Object) (others : List Json.Object)
    (returning : Option Returning) : Prop where
  columns : ∀ key ∈ first.members.keys, key ∈ t.columns.map Column.key
  rows : (first.members = [] ∧ others = []) ∨
    (first.members ≠ [] ∧ ∀ o ∈ others, o.HasKeys first.members.keys)
  values : ∀ o ∈ first :: others, ∀ e ∈ o.members, ∀ c ∈ t.columns, c.key = e.1 →
    ∃ v, c.encode e.2 = .ok v
  returning : ∀ r ∈ returning, r.columns ≠ [] ∧ ∀ key ∈ r.columns, key ∈ t.columns.map Column.key

namespace InsertPlan

variable {s : Schema} {key : String} {q : Insert} {p : InsertPlan} {t : Table} {first : Json.Object}
  {others : List Json.Object} {columns : List Column}

theorem exists_storesAll (hkeys : first.members.keys = columns.map Column.key)
    (hcolumns : ∀ c ∈ columns, c ∈ t.columns) :
    (∃ rows, StoresAll first others columns rows) ↔
      ((first.members = [] ∧ others = []) ∨
        (first.members ≠ [] ∧ ∀ o ∈ others, o.HasKeys first.members.keys)) ∧
      ∀ o ∈ first :: others, ∀ e ∈ o.members, ∀ c ∈ t.columns, c.key = e.1 →
        ∃ v, c.encode e.2 = .ok v := by
  have hempty : columns = [] ↔ first.members = [] := by
    rw [← List.map_eq_nil_iff (f := Column.key), ← hkeys, Keyed.keys, List.map_eq_nil_iff]
  unfold StoresAll
  by_cases hnone : columns = []
  · have hfirst := hempty.1 hnone
    simp only [hnone, hfirst, true_and, ne_eq, not_true_eq_false, false_and, or_false,
      exists_and_left, exists_eq, and_true]
    refine (and_iff_left_of_imp ?_).symm
    rintro rfl o ho e he
    rw [List.mem_singleton.1 ho, hfirst] at he
    cases he
  · have hfirst := mt hempty.2 hnone
    simp only [hnone, hfirst, false_and, false_or, ne_eq, not_false_eq_true, true_and,
      exists_forall₂]
    constructor
    · intro h
      have hall : ∀ o ∈ first :: others, o.HasKeys first.members.keys := by
        intro o ho
        obtain ⟨values, hvalues⟩ := h o ho
        rw [hkeys]
        exact hvalues.keys
      refine ⟨fun o ho => hall o (List.mem_cons_of_mem _ ho), fun o ho => ?_⟩
      exact (exists_stores hcolumns (hkeys ▸ hall o ho)).1 (h o ho)
    · rintro ⟨hothers, hvalues⟩ o ho
      have ho' : o.HasKeys first.members.keys := by
        rcases List.mem_cons.1 ho with rfl | ho
        · exact fun _ => Iff.rfl
        · exact hothers o ho
      exact (exists_stores hcolumns (hkeys ▸ ho')).2 (hvalues o ho)

theorem exists_plan : (∃ p, ofInsert s key q = .ok p) ↔ ∃ t first others, s.table key = .ok t ∧
    q.rows = first :: others ∧ Insert.Fits t first others q.returning := by
  constructor
  · rintro ⟨p, hp⟩
    obtain ⟨first, others, h⟩ := ofInsert_eq_ok.1 hp
    obtain ⟨hkeys, hcolumns⟩ := Table.keys_of_mapM_column h.columns
    obtain ⟨hrows, hvalues⟩ := (exists_storesAll hkeys hcolumns).1 ⟨p.rows, h.rows⟩
    refine ⟨p.table, first, others, h.table, h.given, ?_, hrows, hvalues, ?_⟩
    · exact fun key hkey => Table.exists_column.1 (exists_mapM_eq_ok.1 ⟨_, h.columns⟩ key hkey)
    · exact fun r hr => Returning.exists_plan.1 (exists_option_mapM.1 ⟨_, h.returning⟩ r hr)
  · rintro ⟨t, first, others, ht, hgiven, hfits⟩
    obtain ⟨columns, hcolumns⟩ := exists_mapM_eq_ok.2 fun key hkey =>
      Table.exists_column.2 (hfits.columns key hkey)
    obtain ⟨hkeys, hmem⟩ := Table.keys_of_mapM_column hcolumns
    obtain ⟨rows, hrows⟩ := (exists_storesAll hkeys hmem).2 ⟨hfits.rows, hfits.values⟩
    obtain ⟨returning, hreturning⟩ := exists_option_mapM.2 fun r hr =>
      Returning.exists_plan.2 (hfits.returning r hr)
    exact ⟨⟨t, columns, rows, returning⟩,
      ofInsert_eq_ok.2 ⟨first, others, ht, hgiven, hcolumns, hrows, hreturning⟩⟩

end InsertPlan

/-! ## What is written -/

/-- Placeholders in parentheses. -/
def placeholders (n : Nat) : String :=
  "(" ++ ", ".intercalate (List.replicate n "?") ++ ")"

/-- What an insert says behind its table, for a number of rows. -/
def Insert.body (columns : List Column) (rows : Nat) : String :=
  if columns = [] then "default values"
  else "(" ++ ", ".intercalate (columns.map Column.name) ++ ") values " ++
    ", ".intercalate (List.replicate rows (placeholders columns.length))

theorem getElem?_flatten_of_length {α : Type} {xss : List (List α)} {k : Nat}
    (h : ∀ xs ∈ xss, xs.length = k) {i j : Nat} {xs : List α} (hi : xss[i]? = some xs)
    (hj : j < k) : xss.flatten[i * k + j]? = xs[j]? := by
  induction xss generalizing i with
  | nil => cases hi
  | cons ys xss ih =>
    obtain ⟨hys, hxss⟩ := List.forall_mem_cons.1 h
    rw [List.flatten_cons]
    cases i with
    | zero =>
      cases hi
      rw [Nat.zero_mul, Nat.zero_add, List.getElem?_append_left (by omega)]
    | succ i =>
      have hindex : (i + 1) * k + j - k = i * k + j := by
        rw [Nat.succ_mul]
        omega
      have hle : ys.length ≤ (i + 1) * k + j := by
        rw [Nat.succ_mul]
        omega
      rw [List.getElem?_append_right hle, hys, hindex]
      exact ih hxss hi

namespace InsertPlan

variable {s : Schema} {key : String} {q : Insert} {p : InsertPlan} {first o : Json.Object}
  {others os : List Json.Object} {columns : List Column} {values : List Value}
  {rows : List (List Value)}

theorem Stores.length (h : Stores columns o values) : values.length = columns.length :=
  (mapM_eq_ok.1 h.encoded).length_eq.symm

/-- At the place of a column is the value under its key. -/
theorem Stores.getElem? (h : Stores columns o values) {j : Nat} {c : Column}
    (hc : columns[j]? = some c) :
    ∃ value v, o.members.get? c.key = some value ∧ c.encode value = .ok v ∧
      values[j]? = some v := by
  obtain ⟨value, hvalue⟩ := exists_value h.keys (List.mem_of_getElem? hc)
  obtain ⟨hj, rfl⟩ := List.getElem?_eq_some_iff.1 hc
  have hj' : j < values.length := h.length ▸ hj
  have hv := (mapM_eq_ok.1 h.encoded).get hj hj'
  rw [List.get_eq_getElem, List.get_eq_getElem, hvalue, Option.getD_some] at hv
  exact ⟨value, values[j], hvalue, hv, List.getElem?_eq_getElem hj'⟩

theorem StoresAll.length (h : StoresAll first others columns rows) :
    ∀ values ∈ rows, values.length = columns.length := by
  rcases h with ⟨-, -, rfl⟩ | ⟨-, h⟩
  · simp
  · intro values hvalues
    obtain ⟨o, -, ho⟩ := exists_of_forall₂ h.flip hvalues
    exact ho.length

/-- The tuples of rows that are all of one length. -/
theorem sql_tuples {k : Nat} (h : ∀ values ∈ rows, values.length = k) :
    (Fragment.join ", " (rows.map .parameters)).sql =
      ", ".intercalate (List.replicate rows.length (placeholders k)) := by
  rw [Fragment.sql_join, List.map_map]
  congr 1
  refine List.map_eq_replicate_iff.2 fun values hvalues => ?_
  rw [Function.comp_apply, Fragment.sql_parameters, h values hvalues, placeholders]

theorem render_of_defaults (h : p.columns = []) :
    p.render = ((Fragment.raw ("insert into " ++ p.table.name)).appendRaw
      "default values").appendReturning p.returning := by
  unfold render
  rw [h]
  rfl

theorem render_of_columns (h : p.columns ≠ []) :
    p.render = (((Fragment.raw ("insert into " ++ p.table.name)).appendRaw
      ("(" ++ ", ".intercalate (p.columns.map Column.name) ++ ") values")).append
        (.join ", " (p.rows.map .parameters))).appendReturning p.returning := by
  have hcolumns : p.columns.isEmpty = false := Bool.eq_false_iff.2 (mt List.isEmpty_iff.1 h)
  unfold render
  rw [hcolumns]
  rfl

theorem sql_render (h : Plans s key q first others p) :
    p.render.sql = "insert into " ++ p.table.name ++ " " ++
      Insert.body p.columns (others.length + 1) ++ returningText p.returning := by
  have hinto : (Fragment.raw ("insert into " ++ p.table.name)).sql ≠ "" := by simp
  rcases h.rows with ⟨hcolumns, -, -⟩ | ⟨hcolumns, hrows⟩
  · have hwritten := Fragment.sql_appendRaw_of_ne hinto (s := "default values") (by decide)
    rw [render_of_defaults hcolumns, Fragment.sql_appendReturning (by rw [hwritten]; simp),
      hwritten, Fragment.sql_raw, Insert.body, if_pos hcolumns]
  · have hlength : p.rows.length = others.length + 1 := hrows.length_eq.symm
    have htuples := sql_tuples h.rows.length
    rw [hlength] at htuples
    have hnonempty : (Fragment.join ", " (p.rows.map .parameters)).sql ≠ "" := by
      rw [htuples, List.replicate_succ]
      exact intercalate_ne_empty (by simp [placeholders]) _
    have hnamed := Fragment.sql_appendRaw_of_ne hinto
      (s := "(" ++ ", ".intercalate (p.columns.map Column.name) ++ ") values") (by simp)
    have hwritten := Fragment.sql_append_of_ne (by rw [hnamed]; simp) hnonempty
    rw [render_of_columns hcolumns, Fragment.sql_appendReturning (by rw [hwritten]; simp), hwritten,
      hnamed, htuples, Fragment.sql_raw, Insert.body, if_neg hcolumns]
    simp only [String.append_assoc]
    rfl

theorem params_render (h : Plans s key q first others p) : p.render.params = p.rows.flatten := by
  by_cases hcolumns : p.columns = []
  · have hrows : p.rows = [] := by
      rcases h.rows with ⟨-, -, hrows⟩ | ⟨hne, -⟩
      · exact hrows
      · exact absurd hcolumns hne
    simp [render_of_defaults hcolumns, hrows]
  · simp [render_of_columns hcolumns, List.flatMap_map]

end InsertPlan

namespace Insert

variable {s : Schema} {key : String} {q : Insert} {c : Compiled}

theorem exists_compile :
    (∃ c, compile s key q = .ok c) ↔ ∃ p, InsertPlan.ofInsert s key q = .ok p :=
  exists_map_eq_ok (f := fun p : InsertPlan => (⟨p.render, .returning p.table⟩ : Compiled))

/-- The statement writes the rows to the columns of the keys: there is a tuple of placeholders for
each row, and a parameter is the value of its row under its key as the column stores it. -/
structure Writes (t : Table) (rows : List Json.Object) (keys : List String) (columns : List Column)
    (returned : Option (List Column)) (c : Compiled) : Prop where
  found : keys.mapM t.column = .ok columns
  sql : c.sql = "insert into " ++ t.name ++ " " ++ body columns rows.length ++
    returningText returned
  length : c.params.length = rows.length * keys.length
  param : ∀ (i j : Nat) (o : Json.Object) (key : String) (column : Column),
    rows[i]? = some o → keys[j]? = some key → columns[j]? = some column →
    ∃ value v, o.members.get? key = some value ∧ column.encode value = .ok v ∧
      c.params[i * keys.length + j]? = some v

theorem writes_of_plans {p : InsertPlan} {first : Json.Object} {others : List Json.Object}
    (h : p.Plans s key q first others) :
    Writes p.table (first :: others) first.members.keys p.columns p.returning
      ⟨p.render, .returning p.table⟩ where
  found := h.columns
  sql := p.sql_render h
  length := by
    obtain ⟨hkeys, -⟩ := Table.keys_of_mapM_column h.columns
    have hlength : p.render.params.length = p.rows.length * p.columns.length := by
      rw [p.params_render h, List.length_flatten, List.map_eq_replicate_iff.2 h.rows.length,
        List.sum_replicate_nat]
    rw [Compiled.params, hlength, hkeys, List.length_map]
    rcases h.rows with ⟨hcolumns, -, -⟩ | ⟨-, hrows⟩
    · simp [hcolumns]
    · rw [hrows.length_eq]
  param := by
    intro i j o key column ho hkey hcolumn
    obtain ⟨hkeys, -⟩ := Table.keys_of_mapM_column h.columns
    obtain rfl : column.key = key := by
      rw [hkeys, List.getElem?_map, hcolumn] at hkey
      exact Option.some.inj hkey
    obtain ⟨hj, -⟩ := List.getElem?_eq_some_iff.1 hcolumn
    have hrows : List.Forall₂ (InsertPlan.Stores p.columns) (first :: others) p.rows := by
      rcases h.rows with ⟨hcolumns, -, -⟩ | ⟨-, hrows⟩
      · rw [hcolumns] at hj
        cases hj
      · exact hrows
    obtain ⟨hi, rfl⟩ := List.getElem?_eq_some_iff.1 ho
    have hi' : i < p.rows.length := hrows.length_eq ▸ hi
    obtain ⟨value, v, hvalue, hv, hget⟩ := (hrows.get hi hi').getElem? hcolumn
    refine ⟨value, v, hvalue, hv, ?_⟩
    rw [Compiled.params, p.params_render h, hkeys, List.length_map,
      getElem?_flatten_of_length h.rows.length (List.getElem?_eq_getElem hi') hj]
    exact hget

/-- The order of the members of a row after the first does not matter. -/
theorem compile_of_perm {first : Json.Object} {others others' : List Json.Object}
    (hvalues : q.values = some (.many (first :: others)))
    (h : List.Forall₂ (fun o o' => o.members.Perm o'.members) others others') :
    compile s key { q with values := some (.many (first :: others')) } = compile s key q := by
  have hstored : ∀ t columns, InsertPlan.stored t first others' columns =
      InsertPlan.stored t first others columns := by
    intro t columns
    have hempty : others'.isEmpty = others.isEmpty := by
      cases h <;> rfl
    rw [InsertPlan.stored, InsertPlan.stored, hempty,
      InsertPlan.rowsFrom_of_perm (.cons (.refl first.members) h)]
  have hrows : q.rows = first :: others := by rw [rows, hvalues]; rfl
  unfold compile
  rw [InsertPlan.ofInsert_eq, InsertPlan.ofInsert_eq, hrows]
  simp only [rows, Option.map_some, Values.rows, Option.getD_some, hstored]

/-- An insert compiles if and only if it has rows, the keys of the first are columns, all rows have
these keys or the first has none and is the only one, the columns take the values, and what is to
come back are columns, at least one. It writes then the rows to the columns of these keys; and the
order of the keys in the rows after the first makes no difference to it. -/
theorem writes_iff_fits (s : Schema) (key : String) (q : Insert) :
    ((∃ c, compile s key q = .ok c) ↔ ∃ t first others, s.table key = .ok t ∧
      q.rows = first :: others ∧ Fits t first others q.returning) ∧
    (∀ c, compile s key q = .ok c → ∃ t first others columns returned, s.table key = .ok t ∧
      q.rows = first :: others ∧ q.returning.mapM (Returning.plan t) = .ok returned ∧
      Writes t (first :: others) first.members.keys columns returned c) ∧
    ∀ first others others', q.values = some (.many (first :: others)) →
      List.Forall₂ (fun o o' => o.members.Perm o'.members) others others' →
      compile s key { q with values := some (.many (first :: others')) } = compile s key q := by
  refine ⟨exists_compile.trans InsertPlan.exists_plan, ?_, fun _ _ _ => compile_of_perm⟩
  intro c h
  obtain ⟨p, hp, h⟩ := bind_eq_ok.1 h
  cases h
  obtain ⟨first, others, hplans⟩ := InsertPlan.ofInsert_eq_ok.1 hp
  exact ⟨p.table, first, others, p.columns, p.returning, hplans.table, hplans.given,
    hplans.returning, writes_of_plans hplans⟩

end Insert

namespace Blog

def firstPost : Json.Object :=
  .ofMembers [("authorId", .ofInt64 7), ("createdAt", .str "1970-01-01T00:00:01.000Z")]

def undatedPost : Json.Object :=
  .ofMembers [("authorId", .bool true), ("createdAt", .null)]

/-- The same with its members the other way round. -/
def turnedPost : Json.Object :=
  .ofMembers [("createdAt", .null), ("authorId", .bool true)]

def insertPosts (second : Json.Object) : Insert :=
  ⟨some (.many [firstPost, second]), some ⟨["id"]⟩⟩

end Blog

theorem Insert.writes_iff_fits_blog :
    ∃ c t columns returned, Insert.compile Blog.schema "posts" (Blog.insertPosts Blog.turnedPost) =
        .ok c ∧
      c.sql = "insert into posts (author_id, created_at) values (?, ?), (?, ?) " ++
        "returning id as \"id\"" ∧
      c.params = [.integer 7, .integer 1000, .integer 1, .null] ∧
      Fits t Blog.firstPost [Blog.turnedPost] (some ⟨["id"]⟩) ∧
      Writes t [Blog.firstPost, Blog.turnedPost] ["authorId", "createdAt"] columns returned c ∧
      Insert.compile Blog.schema "posts" (Blog.insertPosts Blog.undatedPost) = .ok c := by
  obtain ⟨hiff, hwrites, hperm⟩ :=
    writes_iff_fits Blog.schema "posts" (Blog.insertPosts Blog.turnedPost)
  obtain ⟨c, hc, hsql, hparams⟩ : ∃ c,
      Insert.compile Blog.schema "posts" (Blog.insertPosts Blog.turnedPost) = .ok c ∧
        c.sql = "insert into posts (author_id, created_at) values (?, ?), (?, ?) " ++
          "returning id as \"id\"" ∧
        c.params = [.integer 7, .integer 1000, .integer 1, .null] :=
    ⟨_, rfl, by decide, by decide⟩
  obtain ⟨t, first, others, ht, hrows, hfits⟩ := hiff.1 ⟨c, hc⟩
  cases hrows
  obtain ⟨t', first, others, columns, returned, ht', hrows, -, hw⟩ := hwrites c hc
  cases hrows
  cases ht.symm.trans ht'
  have hsame := hperm Blog.firstPost [Blog.turnedPost] [Blog.undatedPost] rfl
    (.cons (.swap _ _ _) .nil)
  exact ⟨c, t, columns, returned, hc, hsql, hparams, hfits, hw, hsame.trans hc⟩

/-- Rows without keys all have the key set of the first, and two of them are refused. -/
theorem Insert.refused_of_empty_rows :
    (∃ t first others, Blog.schema.table "posts" = .ok t ∧
      rows ⟨some (.many [.empty, .empty]), none⟩ = first :: others ∧
      (∀ key ∈ first.members.keys, key ∈ t.columns.map Column.key) ∧
      ((first.members = [] ∧ others = []) ∨ ∀ o ∈ others, o.HasKeys first.members.keys) ∧
      ∀ o ∈ first :: others, ∀ e ∈ o.members, ∀ c ∈ t.columns, c.key = e.1 →
        ∃ v, c.encode e.2 = .ok v) ∧
      Insert.compile Blog.schema "posts" ⟨some (.many [.empty, .empty]), none⟩ =
        .error (.invalidStatement (.mixedRows "posts")) := by
  refine ⟨⟨Blog.posts, .empty, [.empty], rfl, rfl, ?_, .inr ?_, ?_⟩, rfl⟩
  · simp [Json.Object.empty]
  · intro o ho
    rw [List.mem_singleton.1 ho]
    exact fun _ => Iff.rfl
  · simp [Json.Object.empty]

end Tabula
