import Tabula.Proofs.Schema.Assembled

/-!
# The relations of an assembled schema

A schema has the relations that were declared and no others, each under the name and for the table
that it was declared for. Those to many are joined on the columns of the one relation that leads
back.
-/

namespace Tabula

open Declarations (Sound candidates)

namespace Schema

variable {ds : Keyed Declaration} {s : Schema}

/-! ## The third pass, group by group -/

namespace Collected

variable {c : Collected} {g : RelationGroup} {rs : Relations}

theorem resolveGroup_eq_ok :
    c.resolveGroup g = .ok rs ↔
      ∃ source, c.tableNamed? g.table = some source ∧ rs.table = g.table ∧
        List.Forall₂ (fun e f => f.1 = e.1 ∧ c.resolve source e.1 e.2 = .ok f.2)
          g.relations rs.fields := by
  have hentry : ∀ (source : Table) (e : String × RelationDecl) (f : String × Relation),
      (∃ r, c.resolve source e.1 e.2 = .ok r ∧
          (Except.ok (e.1, r) : Except Error (String × Relation)) = .ok f) ↔
        f.1 = e.1 ∧ c.resolve source e.1 e.2 = .ok f.2 := by
    rintro source e ⟨name, r⟩
    simp only [Except.ok.injEq, Prod.mk.injEq]
    constructor
    · rintro ⟨r', hr', rfl, rfl⟩
      exact ⟨rfl, hr'⟩
    · rintro ⟨rfl, hr⟩
      exact ⟨r, hr, rfl, rfl⟩
  rw [resolveGroup]
  cases c.tableNamed? g.table with
  | none => simp
  | some source =>
    simp only [Option.some.injEq, exists_eq_left', bind_eq_ok, pure_eq_ok, mapM_eq_ok, hentry]
    constructor
    · rintro ⟨fields, hfields, h⟩
      cases h
      exact ⟨rfl, hfields⟩
    · rintro ⟨htable, hfields⟩
      exact ⟨rs.fields, hfields, by rw [← htable]⟩

theorem keys_of_resolveGroup (h : c.resolveGroup g = .ok rs) :
    g.table = rs.table ∧ g.relations.keys = rs.fields.keys := by
  obtain ⟨source, -, htable, hfields⟩ := resolveGroup_eq_ok.1 h
  exact ⟨htable.symm, map_eq_map_of_forall₂ (fun e f hf => hf.1.symm) hfields⟩

end Collected

theorem tables_of_assemble (h : assemble ds = .ok s) : s.tables = Declarations.tables ds := by
  rw [assemble_of_sound (sound_of_assemble h), map_eq_ok] at h
  obtain ⟨relations, -, rfl⟩ := h
  rfl

theorem relations_of_assemble (h : assemble ds = .ok s) :
    List.Forall₂ (fun g rs => (Collected.ofDeclarations ds).resolveGroup g = .ok rs)
      (Declarations.groups ds) s.relations := by
  rw [assemble_of_sound (sound_of_assemble h), map_eq_ok] at h
  obtain ⟨relations, hrelations, rfl⟩ := h
  exact mapM_eq_ok.1 hrelations

/-! ## Finding relations -/

/-- No table has two groups of relations, and no group has two relations of one name. -/
theorem nodup_relations (h : assemble ds = .ok s) :
    (s.relations.map Relations.table).Nodup ∧ ∀ rs ∈ s.relations, rs.fields.keys.Nodup := by
  have hall := relations_of_assemble h
  constructor
  · have htables := map_eq_map_of_forall₂ (f := RelationGroup.table) (g := Relations.table)
      (fun _ _ hg => (Collected.keys_of_resolveGroup hg).1) hall
    exact htables ▸ (sound_of_assemble h).groups
  · intro rs hrs
    obtain ⟨g, -, hg⟩ := exists_mem_of_mapM_eq_ok (mapM_eq_ok.2 hall) hrs
    exact (Collected.keys_of_resolveGroup hg).2 ▸ g.names_nodup

theorem relation_eq_ok (h : assemble ds = .ok s) {t : Table} (ht : t ∈ s.tables) {name : String}
    {r : Relation} :
    s.relation t.key name = .ok r ↔ ∃ rs ∈ s.relations, rs.table = t.name ∧ (name, r) ∈ rs.fields := by
  obtain ⟨htables, hnames⟩ := nodup_relations h
  constructor
  · intro hr
    obtain ⟨u, rs, hu, hrs, htable, hget⟩ := exists_of_relation hr
    rw [(assembled_of_assemble h).table_key ht] at hu
    cases hu
    exact ⟨rs, hrs, htable, Keyed.mem_of_get? hget⟩
  · rintro ⟨rs, hrs, htable, hmem⟩
    have hkey := table_eq_ok.1 ((assembled_of_assemble h).table_key ht)
    have hfind := (find?_key_eq_some htables).2 ⟨hrs, htable⟩
    have hget := (Keyed.get?_eq_some_iff (hnames rs hrs)).2 hmem
    rw [relation, relationsOf?, hkey]
    simp [hfind, hget]

theorem table_of_tableNamed (h : assemble ds = .ok s) {name : String} {t : Table} :
    s.tableNamed name = .ok t ↔ t ∈ s.tables ∧ t.name = name :=
  tableNamed_eq_ok.trans (find?_key_eq_some (assembled_of_assemble h).names)

theorem exists_leads (h : assemble ds = .ok s) {t : Table} (ht : t ∈ s.tables) {name : String}
    {r : Relation} (hr : s.relation t.key name = .ok r) : ∃ u, s.Leads r t u := by
  obtain ⟨rs, hrs, htable, hmem⟩ := (relation_eq_ok h ht).1 hr
  obtain ⟨hsource, source, u, hleads⟩ := (assembled_of_assemble h).leads rs hrs (name, r) hmem
  have hfound := (table_of_tableNamed h).2 ⟨ht, (hsource.trans htable).symm⟩
  rw [hleads.source_found] at hfound
  cases hfound
  exact ⟨u, hleads⟩

/-- A declared relation is found under its name, with the columns that it has been given. -/
theorem exists_relation (h : assemble ds = .ok s) {t : Table} (ht : t ∈ s.tables)
    {d : DeclaredRelation} (hd : d ∈ Declarations.relations ds) (htable : d.table = t.name) :
    ∃ r, s.relation t.key d.name = .ok r ∧
      (Collected.ofDeclarations ds).resolve t d.name d.decl = .ok r := by
  obtain ⟨g, hg, e, he, rfl⟩ := Declarations.mem_relations.1 hd
  obtain ⟨rs, hrs, hresolve⟩ := exists_of_forall₂ (relations_of_assemble h) hg
  obtain ⟨source, hsource, hname, hfields⟩ := Collected.resolveGroup_eq_ok.1 hresolve
  obtain ⟨f, hf, hkey, hr⟩ := exists_of_forall₂ hfields he
  have hsame : source = t := by
    obtain ⟨hmem, hsourceName⟩ :=
      (Collected.tableNamed?_eq_some (c := .ofDeclarations ds) (sound_of_assemble h).names).1 hsource
    have hmem' : source ∈ s.tables := by
      rw [tables_of_assemble h]
      exact hmem
    exact List.inj_on_of_nodup_map (assembled_of_assemble h).names hmem' ht
      (hsourceName.trans htable)
  subst hsame
  refine ⟨f.2, (relation_eq_ok h ht).2 ⟨rs, hrs, hname.trans htable, ?_⟩, hr⟩
  rw [← hkey]
  exact hf

theorem exists_declared (h : assemble ds = .ok s) {rs : Relations} (hrs : rs ∈ s.relations)
    {name : String} {r : Relation} (hr : (name, r) ∈ rs.fields) :
    ∃ d ∈ Declarations.relations ds, d.table = rs.table ∧ d.name = name ∧
      ∃ source, (Collected.ofDeclarations ds).tableNamed? d.table = some source ∧
        (Collected.ofDeclarations ds).resolve source d.name d.decl = .ok r := by
  obtain ⟨g, hg, hresolve⟩ :=
    exists_mem_of_mapM_eq_ok (mapM_eq_ok.2 (relations_of_assemble h)) hrs
  obtain ⟨source, hsource, htable, hfields⟩ := Collected.resolveGroup_eq_ok.1 hresolve
  obtain ⟨e, he, hname, hresolved⟩ := exists_of_forall₂ hfields.flip hr
  exact ⟨⟨g.table, e.1, e.2⟩, Declarations.mem_relations.2 ⟨g, hg, e, he, rfl⟩, htable.symm,
    hname.symm, source, hsource, hresolved⟩

/-! ## Pairs of relations -/

end Schema

/-- A relation to one leads back from where a relation to many leads, and carries its identifier if
it has one. -/
structure Relation.Pairs (r o : Relation) : Prop where
  many : r.kind = .many
  one : o.kind = .one
  source : o.source = r.referenced
  referenced : o.referenced = r.source
  identifier : r.identifier = none ∨ o.identifier = r.identifier

namespace Schema

variable {ds : Keyed Declaration} {s : Schema}

/-- The schema has the relation, for some table and under some name. -/
def Has (s : Schema) (r : Relation) : Prop :=
  ∃ rs ∈ s.relations, ∃ name, (name, r) ∈ rs.fields

theorem Has.leads (h : assemble ds = .ok s) {r : Relation} (hr : s.Has r) :
    ∃ source referenced, s.Leads r source referenced := by
  obtain ⟨rs, hrs, name, hmem⟩ := hr
  exact ((assembled_of_assemble h).leads rs hrs (name, r) hmem).2

/-- What a relation to many has been resolved from: its declaration, and the only candidate. -/
theorem exists_candidate (h : assemble ds = .ok s) {r : Relation} (hr : s.Has r)
    (hmany : r.kind = .many) :
    ∃ d o, d.table = r.source ∧ d.decl.referenced = r.referenced ∧
      d.decl.identifier = r.identifier ∧ candidates ds d = [o] ∧
      o.decl.link = .one r.referencedFields r.sourceFields := by
  obtain ⟨rs, hrs, name, hmem⟩ := hr
  obtain ⟨d, hd, -, -, source, hsource, hresolve⟩ := exists_declared h hrs hmem
  have hname := Collected.name_of_tableNamed? hsource
  rcases resolve_eq_ok hresolve with ⟨_, _, -, rfl⟩ | ⟨fields, references, -, hback, rfl⟩
  · cases hmany
  rw [hname, Collected.back_eq, List.map_eq_singleton_iff] at hback
  obtain ⟨o, ho, hturned⟩ := hback
  refine ⟨d, o, hname.symm, rfl, rfl, ho, ?_⟩
  have hmem : o ∈ candidates ds d := ho ▸ List.mem_singleton_self o
  obtain ⟨-, hleads⟩ := List.mem_filter.1 hmem
  obtain ⟨hone, -⟩ := of_decide_eq_true hleads
  unfold Collected.turned at hturned
  cases hlink : o.decl.link with
  | many => exact absurd hlink hone
  | one fields' references' =>
    rw [hlink] at hturned
    cases hturned
    rfl

/-- A relation to many has the columns of the relation that it is paired with, turned around. -/
theorem fields_of_pairs (h : assemble ds = .ok s) {r o : Relation} (hr : s.Has r) (ho : s.Has o)
    (hpairs : r.Pairs o) :
    r.sourceFields = o.referencedFields ∧ r.referencedFields = o.sourceFields := by
  obtain ⟨d, c, htable, hreferenced, hidentifier, hcandidates, hlink⟩ :=
    exists_candidate h hr hpairs.many
  obtain ⟨rs, hrs, name, hmem⟩ := ho
  obtain ⟨d', hd', -, -, source, hsource, hresolve⟩ := exists_declared h hrs hmem
  have hname := Collected.name_of_tableNamed? hsource
  rcases resolve_eq_ok hresolve with ⟨fields, references, hlink', rfl⟩ | ⟨_, _, -, -, rfl⟩
  · have hcandidate : d' ∈ candidates ds d := by
      refine List.mem_filter.2 ⟨hd', decide_eq_true ⟨by simp [hlink'], ?_, ?_, ?_⟩⟩
      · rw [hreferenced, ← hpairs.source, ← hname]
      · rw [htable, ← hpairs.referenced]
      · rw [hidentifier]
        exact hpairs.identifier
    rw [hcandidates, List.mem_singleton] at hcandidate
    rw [← hcandidate, hlink'] at hlink
    cases hlink
    exact ⟨rfl, rfl⟩
  · cases hpairs.one

theorem exists_pairs (h : assemble ds = .ok s) {r : Relation} (hr : s.Has r)
    (hmany : r.kind = .many) : ∃ o, s.Has o ∧ r.Pairs o := by
  obtain ⟨d, c, htable, hreferenced, hidentifier, hcandidates, hlink⟩ := exists_candidate h hr hmany
  have hmem : c ∈ candidates ds d := hcandidates ▸ List.mem_singleton_self c
  obtain ⟨hdeclared, hleads⟩ := List.mem_filter.1 hmem
  obtain ⟨-, hsourceTable, hreferencedTable, hsame⟩ := of_decide_eq_true hleads
  have hsound := sound_of_assemble h
  obtain ⟨t, ht⟩ := exists_source hsound hdeclared
  obtain ⟨hmemTable, hname⟩ :=
    (Collected.tableNamed?_eq_some (c := .ofDeclarations ds) hsound.names).1 ht
  have htables : t ∈ s.tables := tables_of_assemble h ▸ hmemTable
  obtain ⟨o, hfound, hresolve⟩ := exists_relation h htables hdeclared hname.symm
  obtain ⟨rs, hrs, -, ho⟩ := (relation_eq_ok h htables).1 hfound
  refine ⟨o, ⟨rs, hrs, c.name, ho⟩, ?_⟩
  rcases resolve_eq_ok hresolve with ⟨_, _, -, rfl⟩ | ⟨_, _, hlink', -, rfl⟩
  · exact {
      many := hmany
      one := rfl
      source := by rw [← hreferenced, ← hsourceTable, ← hname]
      referenced := by rw [← htable, ← hreferencedTable]
      identifier := hidentifier ▸ hsame }
  · rw [hlink] at hlink'
    cases hlink'

end Schema

end Tabula
