import Tabula.Proofs.Table.Declared

/-!
# The statement that creates a table

`CREATE TABLE` as a syntax tree: which columns it declares under which names in the store, and which
primary keys. A declaration decides both, and asks for neither distinct names nor a single primary
key.
-/

namespace Tabula

/-- A clause behind the name and the type of a column. What a raw reference says is taken as it
is. -/
inductive ColumnClause where
  | unique
  | notNull
  | default (literal : String)
  | references (target : String)
  | primaryKey (autoincrement : Bool)
deriving DecidableEq

namespace ColumnClause

def sql : ColumnClause → String
  | unique => " unique"
  | notNull => " not null"
  | default literal => " default " ++ literal
  | references target => " references " ++ target
  | primaryKey autoincrement => " primary key" ++ if autoincrement then " autoincrement" else ""

def isPrimaryKey : ColumnClause → Bool
  | primaryKey _ => true
  | unique | notNull | default _ | references _ => false

/-- Clauses one behind another. -/
def sqlAll (clauses : List ColumnClause) : String :=
  String.join (clauses.map sql)

theorem sqlAll_append (clauses clauses' : List ColumnClause) :
    sqlAll (clauses ++ clauses') = sqlAll clauses ++ sqlAll clauses' := by
  apply String.toList_injective
  simp [sqlAll]

end ColumnClause

/-- What `CREATE TABLE` lists. -/
inductive TableElement where
  | column (name type : String) (clauses : List ColumnClause)
  | primaryKey (columns : List String)
  | foreignKey (k : ForeignKey)
deriving DecidableEq

namespace TableElement

def sql : TableElement → String
  | column name type clauses => name ++ " " ++ type ++ ColumnClause.sqlAll clauses
  | primaryKey columns => "primary key(" ++ ", ".intercalate columns ++ ")"
  | foreignKey k => k.definition

/-- The name of a declared column. -/
def name? : TableElement → Option String
  | column name _ _ => some name
  | primaryKey _ | foreignKey _ => none

/-- The primary keys that the element declares, each with its columns. -/
def primaryKeys : TableElement → List (List String)
  | column name _ clauses => (clauses.filter ColumnClause.isPrimaryKey).map fun _ => [name]
  | primaryKey columns => [columns]
  | foreignKey _ => []

end TableElement

/-- A `CREATE TABLE` statement. -/
structure Creation where
  table : String
  elements : List TableElement

namespace Creation

def sql (c : Creation) : String :=
  "CREATE TABLE IF NOT EXISTS " ++ c.table ++ " (" ++
    ", ".intercalate (c.elements.map TableElement.sql) ++ ")"

/-- The names of the columns, as the store knows them. -/
def names (c : Creation) : List String :=
  c.elements.filterMap TableElement.name?

def primaryKeys (c : Creation) : List (List String) :=
  c.elements.flatMap TableElement.primaryKeys

/-- The store takes the statement only if it can tell the columns apart and there is no second
primary key. -/
structure Sound (c : Creation) : Prop where
  names : c.names.Nodup
  primaryKeys : c.primaryKeys.length ≤ 1

end Creation

/-! ## The statement of a table -/

namespace Column

def clauses (c : Column) : List ColumnClause :=
  (if c.unique then [.unique] else []) ++ (if c.notNull then [.notNull] else []) ++
    (c.default.map fun v => ColumnClause.default v.literal).toList ++
    (c.references.map fun r => ColumnClause.references r.sql).toList ++
    (if c.primaryKey then [.primaryKey c.autoincrement] else [])

def element (c : Column) : TableElement :=
  .column c.name c.kind.storageType c.clauses

theorem sql_element (c : Column) : c.element.sql = c.definition := by
  have hunique : ColumnClause.sqlAll (if c.unique then [.unique] else []) =
      if c.unique then " unique" else "" := by
    cases c.unique <;> rfl
  have hnotNull : ColumnClause.sqlAll (if c.notNull then [.notNull] else []) =
      if c.notNull then " not null" else "" := by
    cases c.notNull <;> rfl
  have hprimaryKey : ColumnClause.sqlAll
      (if c.primaryKey then [.primaryKey c.autoincrement] else []) =
      (if c.primaryKey then " primary key" else "") ++
        (if c.primaryKey && c.autoincrement then " autoincrement" else "") := by
    cases c.primaryKey <;> cases c.autoincrement <;> rfl
  simp only [element, TableElement.sql, clauses, ColumnClause.sqlAll_append, hunique, hnotNull,
    hprimaryKey, definition]
  cases c.default <;> cases c.references <;>
    simp [ColumnClause.sqlAll, ColumnClause.sql, String.append_assoc]

theorem primaryKeys_element (c : Column) :
    c.element.primaryKeys = if c.primaryKey then [[c.name]] else [] := by
  have hunique : (if c.unique then [ColumnClause.unique] else []).filter
      ColumnClause.isPrimaryKey = [] := by
    cases c.unique <;> rfl
  have hnotNull : (if c.notNull then [ColumnClause.notNull] else []).filter
      ColumnClause.isPrimaryKey = [] := by
    cases c.notNull <;> rfl
  have hdefault : (c.default.map fun v => ColumnClause.default v.literal).toList.filter
      ColumnClause.isPrimaryKey = [] := by
    cases c.default <;> rfl
  have hreferences : (c.references.map fun r => ColumnClause.references r.sql).toList.filter
      ColumnClause.isPrimaryKey = [] := by
    cases c.references <;> rfl
  rw [element, TableElement.primaryKeys, clauses, List.filter_append, List.filter_append,
    List.filter_append, List.filter_append, hunique, hnotNull, hdefault, hreferences]
  cases c.primaryKey <;> rfl

end Column

namespace Table

/-- The statement that creates the table: columns, then the primary key if there is one, then
foreign keys. -/
def creation (t : Table) : Creation where
  table := t.name
  elements := t.columns.map Column.element ++
    (if t.primaryKey = [] then [] else [.primaryKey t.primaryKey]) ++
    t.foreignKeys.map .foreignKey

theorem sql_columns (columns : List Column) :
    (columns.map Column.element).map TableElement.sql = columns.map Column.definition := by
  rw [List.map_map]
  exact List.map_congr_left fun c _ => c.sql_element

theorem sql_primaryKeyElement (primaryKey : List String) :
    (if primaryKey = [] then [] else [TableElement.primaryKey primaryKey]).map TableElement.sql =
      if primaryKey.isEmpty then [] else ["primary key(" ++ ", ".intercalate primaryKey ++ ")"] := by
  cases primaryKey with
  | nil => rfl
  | cons name names => rfl

theorem sql_foreignKeys (foreignKeys : List ForeignKey) :
    (foreignKeys.map TableElement.foreignKey).map TableElement.sql =
      foreignKeys.map ForeignKey.definition := by
  rw [List.map_map]
  exact List.map_congr_left fun _ _ => rfl

theorem elements_creation (t : Table) : t.creation.elements.map TableElement.sql =
    t.columns.map Column.definition ++
      (if t.primaryKey.isEmpty then []
        else ["primary key(" ++ ", ".intercalate t.primaryKey ++ ")"]) ++
      t.foreignKeys.map ForeignKey.definition := by
  rw [creation, List.map_append, List.map_append, sql_columns, sql_primaryKeyElement,
    sql_foreignKeys]

theorem sql_creation (t : Table) : t.creation.sql = t.createStatement := by
  unfold Creation.sql createStatement
  simp only [elements_creation]
  have htable : t.creation.table = t.name := rfl
  rw [htable]
  rfl

theorem names_creation (t : Table) : t.creation.names = t.columns.map Column.name := by
  have hcolumns : (t.columns.map Column.element).filterMap TableElement.name? =
      t.columns.map Column.name := by
    rw [List.filterMap_map]
    exact congrFun (List.filterMap_eq_map (f := Column.name)) t.columns
  have hprimaryKey : (if t.primaryKey = [] then []
      else [TableElement.primaryKey t.primaryKey]).filterMap TableElement.name? = [] := by
    split <;> rfl
  have hforeignKeys :
      (t.foreignKeys.map TableElement.foreignKey).filterMap TableElement.name? = [] := by
    rw [List.filterMap_map, List.filterMap_eq_nil_iff]
    exact fun _ _ => rfl
  rw [Creation.names, creation, List.filterMap_append, List.filterMap_append, hcolumns,
    hprimaryKey, hforeignKeys, List.append_nil, List.append_nil]

theorem primaryKeys_creation (t : Table) : t.creation.primaryKeys =
    ((t.columns.filter Column.primaryKey).map fun c => [c.name]) ++
      if t.primaryKey = [] then [] else [t.primaryKey] := by
  have hcolumns : ∀ columns : List Column,
      (columns.map Column.element).flatMap TableElement.primaryKeys =
        (columns.filter Column.primaryKey).map fun c => [c.name] := by
    intro columns
    induction columns with
    | nil => rfl
    | cons c columns ih =>
      rw [List.map_cons, List.flatMap_cons, ih, Column.primaryKeys_element, List.filter_cons]
      split <;> rfl
  have hforeignKeys :
      (t.foreignKeys.map TableElement.foreignKey).flatMap TableElement.primaryKeys = [] := by
    rw [List.flatMap_map]
    exact List.flatMap_eq_nil_iff.2 fun _ _ => rfl
  rw [Creation.primaryKeys, creation, List.flatMap_append, List.flatMap_append, hcolumns,
    hforeignKeys, List.append_nil]
  split <;> rfl

end Table

/-! ## What a declaration asks for -/

namespace TableStep

/-- The names in the store that columns are declared under. -/
def names (steps : List TableStep) : List String :=
  (columns steps).map fun s => s.2.name

/-- How many columns are declared as the primary key. -/
def keyed (steps : List TableStep) : Nat :=
  (columns steps).countP fun s => s.2.primaryKey

variable {steps : List TableStep} {columns : List Column} {primaryKey : List String}
  {foreignKeys : List ForeignKey}

theorem Declare.names_columns (h : Declare steps columns primaryKey foreignKeys) :
    columns.map Column.name = names steps :=
  (map_eq_map_of_forall₂ (fun _ _ hc => by rw [ColumnSpec.Makes.column hc]) h.columns).symm

theorem Declare.countP_primaryKey (h : Declare steps columns primaryKey foreignKeys) :
    columns.countP Column.primaryKey = keyed steps := by
  have hflags := map_eq_map_of_forall₂ (f := fun s : String × ColumnSpec => s.2.primaryKey)
    (g := Column.primaryKey) (fun _ _ hc => by rw [ColumnSpec.Makes.column hc]) h.columns
  have hcount := congrArg (List.countP id) hflags
  rw [List.countP_map, List.countP_map] at hcount
  exact hcount.symm

/-- A table has a primary key of its own if some step declares one, however many do. -/
theorem Declare.primaryKey_eq_nil (h : Declare steps columns primaryKey foreignKeys) :
    primaryKey = [] ↔ primaryKeys steps = [] := by
  refine ⟨fun hnil => ?_, h.unkeyed⟩
  cases hlast : (primaryKeys steps).getLast? with
  | none => exact List.getLast?_eq_none_iff.1 hlast
  | some keys => exact absurd hnil (h.primaryKey keys hlast).nonempty

end TableStep

namespace Table

/-- Every declaration without a misused step makes a table. Its statement declares the columns by
their names in the store as they were given, and a primary key for each column that was declared as
one and another for the primary keys of several columns. So the store can take it if and only if no
name was given twice and there is at most one of these. -/
theorem sound_creation_iff (name : String) (steps : List TableStep) :
    ((∃ t, define name steps = .ok t) ↔
      TableStep.Proper name steps ∧ TableStep.columns steps ≠ []) ∧
    ∀ t, define name steps = .ok t →
      t.createStatement = t.creation.sql ∧
      t.creation.names = TableStep.names steps ∧
      t.creation.primaryKeys.length =
        TableStep.keyed steps + (if TableStep.primaryKeys steps = [] then 0 else 1) ∧
      (t.creation.Sound ↔ (TableStep.names steps).Nodup ∧
        (if TableStep.primaryKeys steps = [] then TableStep.keyed steps ≤ 1
          else TableStep.keyed steps = 0)) := by
  refine ⟨exists_define, fun t h => ?_⟩
  obtain ⟨d, hd, -, -, hcolumns, hprimaryKey, -⟩ := exists_draft h
  have hdeclare := (TableDraft.follows_of_foldlM hd).declare
  have hnames : t.creation.names = TableStep.names steps := by
    rw [names_creation, hcolumns, hdeclare.names_columns]
  have hprimaryKeys : t.creation.primaryKeys.length =
      TableStep.keyed steps + (if TableStep.primaryKeys steps = [] then 0 else 1) := by
    rw [primaryKeys_creation, List.length_append, List.length_map, ← List.countP_eq_length_filter,
      hcolumns, hprimaryKey, hdeclare.countP_primaryKey]
    simp only [hdeclare.primaryKey_eq_nil]
    split <;> rfl
  refine ⟨t.sql_creation.symm, hnames, hprimaryKeys, ?_⟩
  constructor
  · rintro ⟨hnodup, hone⟩
    refine ⟨hnames ▸ hnodup, ?_⟩
    split_ifs at hprimaryKeys ⊢ <;> omega
  · rintro ⟨hnodup, hone⟩
    refine ⟨hnames ▸ hnodup, ?_⟩
    split_ifs at hprimaryKeys hone <;> omega

theorem sound_creation_iff_likes : ∃ t, define "likes" likes = .ok t ∧ t.creation.Sound ∧
    t.creation.names = ["user_id", "post_id"] ∧ t.creation.primaryKeys.length = 1 ∧
    t.createStatement = t.creation.sql := by
  obtain ⟨t, ht⟩ : ∃ t, define "likes" likes = .ok t := ⟨_, rfl⟩
  obtain ⟨hsql, hnames, hprimaryKeys, hsound⟩ := (sound_creation_iff "likes" likes).2 t ht
  exact ⟨t, ht, hsound.2 (by decide), hnames, hprimaryKeys, hsql⟩

/-- Two keys for one name, and a table that has its primary key three times over. -/
theorem unsound_of_proper :
    (∃ t, define "logins" [.column "reader" (.ofKind .integer "user_id"),
        .column "user" (.ofKind .integer "user_id")] = .ok t ∧
      t.createStatement = "CREATE TABLE IF NOT EXISTS logins (user_id integer, user_id integer)" ∧
      ¬t.creation.names.Nodup) ∧
    ∃ t, define "logins" [.column "id" (ColumnSpec.ofKind .integer "id").setPrimaryKey,
        .column "user" (ColumnSpec.ofKind .integer "user_id").setPrimaryKey,
        .primaryKey ["id"]] = .ok t ∧
      t.createStatement = "CREATE TABLE IF NOT EXISTS logins (id integer not null primary key, " ++
        "user_id integer not null primary key, primary key(id))" ∧
      ¬t.creation.primaryKeys.length ≤ 1 := by
  refine ⟨⟨_, rfl, ?_, ?_⟩, _, rfl, ?_, ?_⟩
  · decide
  · decide
  · decide
  · decide

end Table

end Tabula
