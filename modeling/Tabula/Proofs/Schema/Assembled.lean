import Tabula.Proofs.Schema.Pairing

/-!
# Assembled schemas

What holds in every schema that has been assembled: its tables can be told apart, and its relations
are joined on columns that are there.
-/

namespace Tabula

open Declarations (Sound PairsColumns Pairs candidates)

namespace Schema

/-- The relation leads from a table of the schema to a table of it, and is joined on columns of
both, in pairs. -/
structure Leads (s : Schema) (r : Relation) (source referenced : Table) : Prop where
  source_found : s.tableNamed r.source = .ok source
  referenced_found : s.tableNamed r.referenced = .ok referenced
  nonempty : r.sourceFields ≠ []
  paired : r.sourceFields.length = r.referencedFields.length
  source_columns : ∀ key ∈ r.sourceFields, key ∈ source.columns.map Column.key
  referenced_columns : ∀ key ∈ r.referencedFields, key ∈ referenced.columns.map Column.key

/-- What assembling makes sure of. -/
structure Assembled (s : Schema) : Prop where
  keys : (s.tables.map Table.key).Nodup
  names : (s.tables.map Table.name).Nodup
  leads : ∀ g ∈ s.relations, ∀ e ∈ g.fields,
    e.2.source = g.table ∧ ∃ source referenced, s.Leads e.2 source referenced

variable {ds : Keyed Declaration} {s : Schema}

/-- The keys of the tables are keys of the declarations. -/
theorem keys_tables (ds : Keyed Declaration) :
    ((Declarations.tables ds).map Table.key).Sublist ds.keys := by
  induction ds with
  | nil => exact .slnil
  | cons d ds ih =>
    obtain ⟨key, d⟩ := d
    cases d with
    | table t => exact ih.cons_cons key
    | relations g => exact ih.cons key

/-- The columns that a declared relation gets. -/
theorem resolve_eq_ok {c : Collected} {source : Table} {name : String} {decl : RelationDecl}
    {r : Relation} (h : c.resolve source name decl = .ok r) :
    (∃ fields references, decl.link = .one fields references ∧
      r = ⟨.one, source.name, decl.referenced, fields, references, decl.identifier⟩) ∨
    (∃ fields references, decl.link = .many ∧
      c.back source.name decl.referenced decl.identifier = [(fields, references)] ∧
      r = ⟨.many, source.name, decl.referenced, fields, references, decl.identifier⟩) := by
  unfold Collected.resolve at h
  split at h
  · rename_i fields references hlink
    cases h
    exact .inl ⟨fields, references, hlink, rfl⟩
  · rename_i hlink
    split at h
    · rename_i fields references hback
      cases h
      exact .inr ⟨fields, references, hlink, hback, rfl⟩
    · cases h
    · cases h

/-- The columns of the only relation back are columns of both tables. -/
theorem pairs_of_back (h : Sound ds) {d : DeclaredRelation} {fields references : List String}
    (hback : (Collected.ofDeclarations ds).back d.table d.decl.referenced d.decl.identifier =
      [(fields, references)]) : Pairs ds d.table d.decl.referenced fields references := by
  rw [Collected.back_eq, List.map_eq_singleton_iff] at hback
  obtain ⟨o, hcandidates, hturned⟩ := hback
  have ho : o ∈ candidates ds d := hcandidates ▸ List.mem_singleton_self o
  obtain ⟨hmem, hleads⟩ := List.mem_filter.1 ho
  obtain ⟨hone, htable, hreferenced, -⟩ := of_decide_eq_true hleads
  have hpairs := h.pairs o hmem
  unfold Collected.turned at hturned
  unfold PairsColumns at hpairs
  cases hlink : o.decl.link with
  | many => exact absurd hlink hone
  | one fields' references' =>
    rw [hlink] at hturned hpairs
    cases hturned
    rw [htable, hreferenced] at hpairs
    exact hpairs.turned

/-- A relation that the third pass has resolved leads from its table to the one it names. -/
theorem leads_of_resolve (h : Sound ds) {d : DeclaredRelation}
    (hd : d ∈ Declarations.relations ds) {source : Table}
    (hsource : (Collected.ofDeclarations ds).tableNamed? d.table = some source) {r : Relation}
    (hr : (Collected.ofDeclarations ds).resolve source d.name d.decl = .ok r)
    {relations : List Relations} :
    r.source = d.table ∧
      ∃ referenced, Leads ⟨ds, Declarations.tables ds, relations⟩ r source referenced := by
  have hname := Collected.name_of_tableNamed? hsource
  obtain ⟨referenced, hreferenced⟩ :=
    (Collected.exists_tableNamed? (c := .ofDeclarations ds)).2 (h.referenced d hd)
  have hleads : ∀ kind fields references,
      Pairs ds d.table d.decl.referenced fields references →
      Leads ⟨ds, Declarations.tables ds, relations⟩
        ⟨kind, source.name, d.decl.referenced, fields, references, d.decl.identifier⟩
        source referenced := by
    intro kind fields references hpairs
    refine ⟨?_, tableNamed_eq_ok.2 hreferenced, hpairs.nonempty, hpairs.length, ?_, ?_⟩
    · rw [hname]
      exact tableNamed_eq_ok.2 hsource
    · intro key hkey
      exact (Declarations.hasColumn_iff h.names hsource).1 (hpairs.fields key hkey)
    · intro key hkey
      exact (Declarations.hasColumn_iff h.names hreferenced).1 (hpairs.references key hkey)
  rcases resolve_eq_ok hr with
    ⟨fields, references, hlink, rfl⟩ | ⟨fields, references, -, hback, rfl⟩
  · have hpairs := h.pairs d hd
    rw [PairsColumns, hlink] at hpairs
    exact ⟨hname, referenced, hleads _ _ _ hpairs⟩
  · rw [hname] at hback
    exact ⟨hname, referenced, hleads _ _ _ (pairs_of_back h hback)⟩

theorem assembled_of_assemble (h : assemble ds = .ok s) : s.Assembled := by
  have hsound := sound_of_assemble h
  rw [assemble_of_sound hsound, map_eq_ok] at h
  obtain ⟨relations, hrelations, rfl⟩ := h
  refine ⟨hsound.keys.sublist (keys_tables ds), hsound.names, ?_⟩
  intro g hg e he
  obtain ⟨g', hg', hresolve⟩ := exists_mem_of_mapM_eq_ok hrelations hg
  obtain ⟨source, hsource⟩ :=
    (Collected.exists_tableNamed? (c := .ofDeclarations ds)).2 (hsound.source g' hg')
  rw [Collected.resolveGroup, hsource] at hresolve
  obtain ⟨fields, hfields, hgroup⟩ := bind_eq_ok.1 hresolve
  cases hgroup
  obtain ⟨e', he', hentry⟩ := exists_mem_of_mapM_eq_ok hfields he
  obtain ⟨r, hr, hentry⟩ := bind_eq_ok.1 hentry
  cases hentry
  have hd : ⟨g'.table, e'.1, e'.2⟩ ∈ Declarations.relations ds :=
    Declarations.mem_relations.2 ⟨g', hg', e', he', rfl⟩
  obtain ⟨hname, referenced, hleads⟩ := leads_of_resolve hsound hd hsource hr
  exact ⟨hname, source, referenced, hleads⟩

namespace Assembled

/-- A table is found under its key. -/
theorem table_key (h : s.Assembled) {t : Table} (ht : t ∈ s.tables) : s.table t.key = .ok t :=
  table_eq_ok.2 ((find?_key_eq_some h.keys).2 ⟨ht, rfl⟩)

theorem leads_of_relation (h : s.Assembled) {key name : String} {r : Relation}
    (hr : s.relation key name = .ok r) : ∃ source referenced, s.Leads r source referenced := by
  obtain ⟨t, g, -, hg, -, hget⟩ := exists_of_relation hr
  exact (h.leads g hg (name, r) (Keyed.mem_of_get? hget)).2

end Assembled

end Schema

/-! ## Tables that refer to each other -/

namespace Blog

def users : Table where
  key := "app_users"
  name := "app_users"
  columns := [
    { name := "id", key := "id", kind := .integer, primaryKey := true },
    { name := "is_active", key := "isActive", kind := .boolean },
    { name := "avatar", key := "avatar", kind := .blob }]
  primaryKey := []
  foreignKeys := []
  columns_ne_nil := by decide
  keys_nodup := by decide

def posts : Table where
  key := "posts"
  name := "posts"
  columns := [
    { name := "id", key := "id", kind := .integer, primaryKey := true },
    { name := "author_id", key := "authorId", kind := .integer },
    { name := "created_at", key := "createdAt", kind := .date }]
  primaryKey := []
  foreignKeys := []
  columns_ne_nil := by decide
  keys_nodup := by decide

/-- Users have posts, and a post has an author. -/
def declarations : Keyed Declaration :=
  [("users", .table users), ("posts", .table posts),
    ("usersRelations", .relations (.ofList "app_users"
      [("posts", { referenced := "posts", link := .many })])),
    ("postsRelations", .relations (.ofList "posts"
      [("author", { referenced := "app_users", link := .one ["authorId"] ["id"] })]))]

def schema : Schema :=
  match Schema.assemble declarations with
  | .ok s => s
  | .error _ => ⟨[], [], []⟩

theorem assemble_declarations : Schema.assemble declarations = .ok schema := by
  rfl

def userPosts : Relation :=
  ⟨.many, "app_users", "posts", ["id"], ["authorId"], none⟩

def postAuthor : Relation :=
  ⟨.one, "posts", "app_users", ["authorId"], ["id"], none⟩

end Blog

end Tabula
