import Tabula.Schema.Assemble
import Tabula.Proofs.Schema.Lookup
import Mathlib.Data.List.Induction
import Mathlib.Data.List.Nodup

/-!
# What declarations say

Declarations are `Sound` if nothing is declared twice and relations name tables and columns that are
declared. The first two passes of `Schema.assemble` succeed on sound declarations and on no others.
-/

namespace Tabula

/-- A relation with the table and the name that it is declared for. -/
structure DeclaredRelation where
  table : String
  name : String
  decl : RelationDecl

namespace Declarations

/-- The declared tables under their keys. -/
def tables (ds : Keyed Declaration) : List Table :=
  ds.filterMap fun d =>
    match d.2 with
    | .table t => some (t.withKey d.1)
    | .relations _ => none

def groups (ds : Keyed Declaration) : List RelationGroup :=
  ds.filterMap fun d =>
    match d.2 with
    | .table _ => none
    | .relations g => some g

def ofGroup (g : RelationGroup) : List DeclaredRelation :=
  g.relations.map fun r => ⟨g.table, r.1, r.2⟩

/-- All declared relations, in order. -/
def relations (ds : Keyed Declaration) : List DeclaredRelation :=
  (groups ds).flatMap ofGroup

/-- The relations to many, in order. -/
def manys (ds : Keyed Declaration) : List DeclaredRelation :=
  (relations ds).filter fun r => r.decl.link = .many

/-- The relations to one that lead back from where a relation leads, and carry its identifier if
it has one. -/
def candidates (ds : Keyed Declaration) (r : DeclaredRelation) : List DeclaredRelation :=
  (relations ds).filter fun o =>
    o.decl.link ≠ .many ∧ o.table = r.decl.referenced ∧ o.decl.referenced = r.table ∧
      (r.decl.identifier = none ∨ o.decl.identifier = r.decl.identifier)

/-- A key is that of a column of a declared table. -/
def HasColumn (ds : Keyed Declaration) (table key : String) : Prop :=
  ∃ t ∈ tables ds, t.name = table ∧ key ∈ t.columns.map Column.key

/-- Columns of a table and of another are paired, at least one of each. -/
structure Pairs (ds : Keyed Declaration) (table referenced : String)
    (fields references : List String) : Prop where
  nonempty : fields ≠ []
  length : fields.length = references.length
  fields : ∀ key ∈ fields, HasColumn ds table key
  references : ∀ key ∈ references, HasColumn ds referenced key

theorem Pairs.turned {ds : Keyed Declaration} {table referenced : String}
    {fields references : List String} (h : Pairs ds table referenced fields references) :
    Pairs ds referenced table references fields where
  nonempty := by
    intro hempty
    have hlength := h.length
    rw [hempty, List.length_nil, List.length_eq_zero_iff] at hlength
    exact h.nonempty hlength
  length := h.length.symm
  fields := h.references
  references := h.fields

/-- A relation to one pairs columns of its two tables. -/
def PairsColumns (ds : Keyed Declaration) (r : DeclaredRelation) : Prop :=
  match r.decl.link with
  | .many => True
  | .one fields references => Pairs ds r.table r.decl.referenced fields references

/-- Nothing is declared twice, and relations name tables and columns that are declared. -/
structure Sound (ds : Keyed Declaration) : Prop where
  keys : ds.keys.Nodup
  names : ((tables ds).map Table.name).Nodup
  groups : ((groups ds).map RelationGroup.table).Nodup
  source : ∀ g ∈ Declarations.groups ds, g.table ∈ (tables ds).map Table.name
  referenced : ∀ r ∈ relations ds, r.decl.referenced ∈ (tables ds).map Table.name
  pairs : ∀ r ∈ relations ds, PairsColumns ds r

end Declarations

namespace Schema.Collected

open Declarations

/-! ## Collecting -/

/-- All that declarations say, whether or not twice. -/
def ofDeclarations (ds : Keyed Declaration) : Collected :=
  ⟨ds.keys.reverse, Declarations.tables ds, Declarations.groups ds⟩

structure Distinct (c : Collected) : Prop where
  keys : c.keys.Nodup
  names : (c.tables.map Table.name).Nodup
  groups : (c.groups.map RelationGroup.table).Nodup

def put (c : Collected) (key : String) : Declaration → Collected
  | .table t => ⟨key :: c.keys, c.tables ++ [t.withKey key], c.groups⟩
  | .relations g => ⟨key :: c.keys, c.tables, c.groups ++ [g]⟩

theorem ofDeclarations_append (ds : Keyed Declaration) (key : String) (d : Declaration) :
    ofDeclarations (ds ++ [(key, d)]) = (ofDeclarations ds).put key d := by
  cases d <;> simp [ofDeclarations, put, Declarations.tables, Declarations.groups]

theorem nodup_map_append {α : Type} {f : α → String} {xs : List α} {x : α} :
    ((xs ++ [x]).map f).Nodup ↔ (xs.map f).Nodup ∧ ¬xs.any (fun y => f y == f x) = true := by
  rw [List.map_append, List.map_singleton, ← List.concat_eq_append, List.nodup_concat]
  simp [and_comm]

variable {c c' : Collected} {key : String}

theorem distinct_put_table {t : Table} : (c.put key (.table t)).Distinct ↔
    c.Distinct ∧ key ∉ c.keys ∧ ¬c.tables.any (fun u => u.name == t.name) = true := by
  constructor
  · rintro ⟨hkeys, hnames, hgroups⟩
    obtain ⟨hkey, hkeys⟩ := List.nodup_cons.1 hkeys
    obtain ⟨hnames, hname⟩ := nodup_map_append.1 hnames
    exact ⟨⟨hkeys, hnames, hgroups⟩, hkey, hname⟩
  · rintro ⟨⟨hkeys, hnames, hgroups⟩, hkey, hname⟩
    exact ⟨List.nodup_cons.2 ⟨hkey, hkeys⟩, nodup_map_append.2 ⟨hnames, hname⟩, hgroups⟩

theorem distinct_put_relations {g : RelationGroup} : (c.put key (.relations g)).Distinct ↔
    c.Distinct ∧ key ∉ c.keys ∧ ¬c.groups.any (fun h => h.table == g.table) = true := by
  constructor
  · rintro ⟨hkeys, hnames, hgroups⟩
    obtain ⟨hkey, hkeys⟩ := List.nodup_cons.1 hkeys
    obtain ⟨hgroups, hgroup⟩ := nodup_map_append.1 hgroups
    exact ⟨⟨hkeys, hnames, hgroups⟩, hkey, hgroup⟩
  · rintro ⟨⟨hkeys, hnames, hgroups⟩, hkey, hgroup⟩
    exact ⟨List.nodup_cons.2 ⟨hkey, hkeys⟩, hnames, nodup_map_append.2 ⟨hgroups, hgroup⟩⟩

theorem distinct_of_put {d : Declaration} (h : (c.put key d).Distinct) : c.Distinct := by
  cases d with
  | table t => exact (distinct_put_table.1 h).1
  | relations g => exact (distinct_put_relations.1 h).1

/-- A declaration is taken if it adds nothing that is there already. -/
theorem add_eq_ok {d : Declaration} (h : c.Distinct) :
    c.add key d = .ok c' ↔ (c.put key d).Distinct ∧ c.put key d = c' := by
  cases d with
  | table t =>
    rw [distinct_put_table, and_iff_right h, add]
    by_cases hkey : key ∈ c.keys
    · simp [hkey]
    · by_cases hname : c.tables.any (fun u => u.name == t.name) = true
      · simp [hkey, hname]
      · simp [hkey, hname, put]
  | relations g =>
    rw [distinct_put_relations, and_iff_right h, add]
    by_cases hkey : key ∈ c.keys
    · simp [hkey]
    · by_cases hgroup : c.groups.any (fun h => h.table == g.table) = true
      · simp [hkey, hgroup]
      · simp [hkey, hgroup, put]

theorem collect_eq_ok {ds : Keyed Declaration} :
    ds.foldlM (fun (c : Collected) d => c.add d.1 d.2) ⟨[], [], []⟩ = .ok c ↔
      (ofDeclarations ds).Distinct ∧ ofDeclarations ds = c := by
  -- from the right, since the last declaration meets what the others have left behind
  induction ds using List.reverseRecOn generalizing c with
  | nil =>
    have hdistinct : (ofDeclarations []).Distinct := ⟨.nil, .nil, .nil⟩
    rw [List.foldlM_nil, pure_eq_ok, Except.ok.injEq]
    exact (and_iff_right hdistinct).symm
  | append_singleton ds d ih =>
    obtain ⟨key, d⟩ := d
    rw [List.foldlM_append, bind_eq_ok, ofDeclarations_append]
    simp only [List.foldlM_cons, List.foldlM_nil, bind_pure]
    constructor
    · rintro ⟨c₁, hc₁, h⟩
      obtain ⟨hdistinct, rfl⟩ := ih.1 hc₁
      exact (add_eq_ok hdistinct).1 h
    · rintro ⟨hdistinct, rfl⟩
      have hbefore := distinct_of_put hdistinct
      exact ⟨_, ih.2 ⟨hbefore, rfl⟩, (add_eq_ok hbefore).2 ⟨hdistinct, rfl⟩⟩

/-! ## Checking -/

section Check

variable {name : String} {t : Table}

theorem name_of_tableNamed? (h : c.tableNamed? name = some t) : t.name = name := by
  simpa using List.find?_some h

theorem tableNamed?_eq_some (hc : (c.tables.map Table.name).Nodup) :
    c.tableNamed? name = some t ↔ t ∈ c.tables ∧ t.name = name :=
  find?_key_eq_some hc

theorem exists_tableNamed? :
    (∃ t, c.tableNamed? name = some t) ↔ name ∈ c.tables.map Table.name := by
  rw [← Option.isSome_iff_exists, tableNamed?, List.find?_isSome]
  simp

theorem checkColumns_eq_ok {source referenced : Table} {fields references : List String} :
    checkColumns name source referenced fields references = .ok () ↔
      fields ≠ [] ∧ fields.length = references.length ∧
        (∀ key ∈ fields, key ∈ source.columns.map Column.key) ∧
        ∀ key ∈ references, key ∈ referenced.columns.map Column.key := by
  have hknown : ∀ (table : Table) (key : String) (e : SchemaFault),
      (if (table.column? key).isSome then (.ok () : Except SchemaFault Unit) else .error e) =
        .ok () ↔ key ∈ table.columns.map Column.key := by
    intro table key e
    rw [← Table.isSome_column?]
    split <;> simp [*]
  unfold checkColumns
  dsimp only
  by_cases hempty : fields = []
  · simp [hempty]
  · by_cases hlength : fields.length = references.length
    · have hcount : (fields.isEmpty || fields.length != references.length) = false := by
        simp [hempty, hlength]
      rw [hcount, if_neg Bool.false_ne_true, bind_eq_ok]
      constructor
      · rintro ⟨⟨⟩, hfields, hreferences⟩
        simp only [forM_eq_ok, hknown] at hfields hreferences
        exact ⟨hempty, hlength, hfields, hreferences⟩
      · rintro ⟨-, -, hfields, hreferences⟩
        exact ⟨(), forM_eq_ok.2 fun key hkey => (hknown _ _ _).2 (hfields key hkey),
          forM_eq_ok.2 fun key hkey => (hknown _ _ _).2 (hreferences key hkey)⟩
    · simp [hempty, hlength]

theorem checkRelation_eq_ok {source : Table} {r : RelationDecl} :
    c.checkRelation source name r = .ok () ↔
      ∃ referenced, c.tableNamed? r.referenced = some referenced ∧
        ∀ fields references, r.link = .one fields references →
          checkColumns name source referenced fields references = .ok () := by
  unfold checkRelation
  cases c.tableNamed? r.referenced with
  | none => simp
  | some referenced =>
    cases r.link with
    | many => simp
    | one fields references => simp

theorem checkGroup_eq_ok {g : RelationGroup} :
    c.checkGroup g = .ok () ↔
      ∃ source, c.tableNamed? g.table = some source ∧
        ∀ r ∈ g.relations, c.checkRelation source r.1 r.2 = .ok () := by
  unfold checkGroup
  cases c.tableNamed? g.table with
  | none => simp
  | some source => simp only [Option.some.injEq, exists_eq_left', forM_eq_ok]

end Check

end Schema.Collected

namespace Declarations

open Schema (Collected)

variable {ds : Keyed Declaration}

theorem mem_relations {r : DeclaredRelation} :
    r ∈ relations ds ↔ ∃ g ∈ groups ds, ∃ e ∈ g.relations, ⟨g.table, e.1, e.2⟩ = r := by
  simp [relations, ofGroup]

theorem hasColumn_iff (hnames : ((tables ds).map Table.name).Nodup) {name key : String} {t : Table}
    (ht : (Collected.ofDeclarations ds).tableNamed? name = some t) :
    HasColumn ds name key ↔ key ∈ t.columns.map Column.key := by
  constructor
  · rintro ⟨u, hu, hname, hkey⟩
    have hfound := (Collected.tableNamed?_eq_some (c := .ofDeclarations ds) hnames).2 ⟨hu, hname⟩
    rw [hfound] at ht
    cases ht
    exact hkey
  · intro hkey
    obtain ⟨hmem, hname⟩ := (Collected.tableNamed?_eq_some hnames).1 ht
    exact ⟨t, hmem, hname, hkey⟩

/-- What the second pass asks of a relation. -/
theorem checkRelation_iff (hnames : ((tables ds).map Table.name).Nodup) {r : DeclaredRelation}
    {source : Table} (hsource : (Collected.ofDeclarations ds).tableNamed? r.table = some source) :
    (Collected.ofDeclarations ds).checkRelation source r.name r.decl = .ok () ↔
      r.decl.referenced ∈ (tables ds).map Table.name ∧ PairsColumns ds r := by
  have hexists : r.decl.referenced ∈ (tables ds).map Table.name ↔
      ∃ t, (Collected.ofDeclarations ds).tableNamed? r.decl.referenced = some t :=
    (Collected.exists_tableNamed? (c := .ofDeclarations ds)).symm
  rw [Collected.checkRelation_eq_ok, hexists, ← exists_and_right, PairsColumns]
  refine exists_congr fun referenced => and_congr_right fun hreferenced => ?_
  cases hlink : r.decl.link with
  | many => simp
  | one fields references =>
    simp only [Link.one.injEq, and_imp, Collected.checkColumns_eq_ok,
      ← hasColumn_iff hnames hsource, ← hasColumn_iff hnames hreferenced]
    constructor
    · intro h
      obtain ⟨hne, hlength, hfields, hreferences⟩ := h fields references rfl rfl
      exact ⟨hne, hlength, hfields, hreferences⟩
    · rintro ⟨hne, hlength, hfields, hreferences⟩ _ _ rfl rfl
      exact ⟨hne, hlength, hfields, hreferences⟩

/-- The first two passes succeed on sound declarations and on no others. -/
theorem sound_iff :
    Sound ds ↔ (Collected.ofDeclarations ds).Distinct ∧
      ∀ g ∈ groups ds, (Collected.ofDeclarations ds).checkGroup g = .ok () := by
  constructor
  · intro h
    refine ⟨⟨List.nodup_reverse.2 h.keys, h.names, h.groups⟩, ?_⟩
    intro g hg
    obtain ⟨source, hsource⟩ :=
      (Collected.exists_tableNamed? (c := .ofDeclarations ds)).2 (h.source g hg)
    refine Collected.checkGroup_eq_ok.2 ⟨source, hsource, ?_⟩
    intro e he
    have hr : ⟨g.table, e.1, e.2⟩ ∈ relations ds := mem_relations.2 ⟨g, hg, e, he, rfl⟩
    exact (checkRelation_iff h.names hsource).2 ⟨h.referenced _ hr, h.pairs _ hr⟩
  · rintro ⟨⟨hkeys, hnames, hgroups⟩, hcheck⟩
    have hrelation : ∀ r ∈ relations ds,
        r.decl.referenced ∈ (tables ds).map Table.name ∧ PairsColumns ds r := by
      intro r hr
      obtain ⟨g, hg, e, he, rfl⟩ := mem_relations.1 hr
      obtain ⟨source, hsource, hall⟩ := Collected.checkGroup_eq_ok.1 (hcheck g hg)
      exact (checkRelation_iff hnames hsource).1 (hall e he)
    refine ⟨List.nodup_reverse.1 hkeys, hnames, hgroups, ?_, fun r hr => (hrelation r hr).1,
      fun r hr => (hrelation r hr).2⟩
    intro g hg
    obtain ⟨source, hsource, -⟩ := Collected.checkGroup_eq_ok.1 (hcheck g hg)
    exact Collected.exists_tableNamed?.1 ⟨source, hsource⟩

end Declarations

end Tabula
