import Tabula.Proofs.Embedding.Plan
import Tabula.Proofs.Fragment
import Tabula.Proofs.Schema.Lookup

/-!
# Question marks in the SQL of embeddings

If no name of a schema holds a question mark, the subqueries of its relations are plain: their
question marks are the placeholders of limits.
-/

namespace Tabula

/-- No name of the table or of its columns holds a question mark. -/
structure Table.Unmarked (t : Table) : Prop where
  name : Tabula.Unmarked t.name
  key : Tabula.Unmarked t.key
  columnName : ∀ c ∈ t.columns, Tabula.Unmarked c.name
  columnKey : ∀ c ∈ t.columns, Tabula.Unmarked c.key

instance (t : Table) : Decidable t.Unmarked :=
  decidable_of_iff (Tabula.Unmarked t.name ∧ Tabula.Unmarked t.key ∧
      (∀ c ∈ t.columns, Tabula.Unmarked c.name) ∧ ∀ c ∈ t.columns, Tabula.Unmarked c.key)
    ⟨fun ⟨hn, hk, hcn, hck⟩ => ⟨hn, hk, hcn, hck⟩, fun ⟨hn, hk, hcn, hck⟩ => ⟨hn, hk, hcn, hck⟩⟩

/-- No name of a table, a column or a relation holds a question mark. -/
structure Schema.Unmarked (s : Schema) : Prop where
  table : ∀ t ∈ s.tables, t.Unmarked
  relation : ∀ g ∈ s.relations, ∀ name ∈ g.fields.keys, Tabula.Unmarked name

instance (s : Schema) : Decidable s.Unmarked :=
  decidable_of_iff ((∀ t ∈ s.tables, t.Unmarked) ∧
      ∀ g ∈ s.relations, ∀ name ∈ g.fields.keys, Tabula.Unmarked name)
    ⟨fun ⟨ht, hr⟩ => ⟨ht, hr⟩, fun ⟨ht, hr⟩ => ⟨ht, hr⟩⟩

theorem Schema.Unmarked.relationName {s : Schema} (hs : s.Unmarked) {key name : String}
    {r : Relation} (h : s.relation key name = .ok r) : Tabula.Unmarked name := by
  obtain ⟨t, g, -, hg, -, hname⟩ := exists_of_relation h
  exact hs.relation g hg name (Keyed.get?_isSome_iff.1 (by rw [hname]; rfl))

theorem Column.unmarked_embedded {c : Column} (hc : Tabula.Unmarked c.name) {row : String}
    (hrow : Tabula.Unmarked row) : Tabula.Unmarked (c.embedded row) := by
  unfold embedded
  split
  · simp +decide [hc, hrow]
  · simp +decide [hc, hrow]

namespace Embedding

theorem plain_object {e : Embedding} (ht : e.table.Unmarked) (hlabel : Tabula.Unmarked e.label)
    {nested : List Fragment} (hnested : ∀ f ∈ nested, f.Plain) : (e.object nested).Plain := by
  have hcolumn : ∀ c ∈ e.table.columns,
      (Fragment.raw s!"'{c.key}', {c.embedded e.label}").Plain := by
    intro c hc
    simp +decide [ht.columnKey c hc, Column.unmarked_embedded (ht.columnName c hc) hlabel]
  have hproperty : ∀ f ∈ (e.table.columns.map fun c =>
      Fragment.raw s!"'{c.key}', {c.embedded e.label}") ++ nested, f.Plain := by
    intro f hf
    rcases List.mem_append.1 hf with hf | hf
    · obtain ⟨c, hc, rfl⟩ := List.mem_map.1 hf
      exact hcolumn c hc
    · exact hnested f hf
  have hseparator : Tabula.Unmarked ", " := by decide
  have hjoined := Fragment.plain_join hseparator hproperty
  simp +decide [object, hjoined]

theorem unmarked_condition {e : Embedding} (hlabel : Tabula.Unmarked e.label)
    (hparent : Tabula.Unmarked e.parent)
    (hpairs : ∀ p ∈ e.pairs, Tabula.Unmarked p.1.name ∧ Tabula.Unmarked p.2.name) :
    Tabula.Unmarked e.condition := by
  refine unmarked_intercalate (by decide) fun s hs => ?_
  obtain ⟨p, hp, rfl⟩ := List.mem_map.1 hs
  simp +decide [hlabel, hparent, hpairs p hp]

theorem plain_subquery {e : Embedding} (ht : e.table.Unmarked) (hlabel : Tabula.Unmarked e.label)
    (hcondition : Tabula.Unmarked e.condition) {nested : List Fragment}
    (hnested : ∀ f ∈ nested, f.Plain) : (e.subquery nested).Plain := by
  have hobject := plain_object ht hlabel hnested
  have hselect : (Fragment.raw "select").Plain := Fragment.plain_raw.2 (by decide)
  unfold subquery
  split
  · refine ((hselect.append hobject).appendRaw ?_).parens
    simp +decide [ht.name, hlabel, hcondition]
  · have hrows : (Fragment.raw
        s!"select * from {e.table.name} as {e.label} where {e.condition}").Plain := by
      simp +decide [ht.name, hlabel, hcondition]
    have harray :
        (((Fragment.raw "json_group_array(").push (e.object nested)).pushRaw ")").Plain := by
      simp +decide [hobject]
    have hfrom := (hselect.append harray).appendRaw (s := "from") (by decide)
    have hname : Tabula.Unmarked s!"as {e.label}" := by simp +decide [hlabel]
    cases e.limit with
    | none => exact ((hfrom.append hrows.parens).appendRaw hname).parens
    | some limit =>
      have hlimited := (hrows.appendRaw (s := "limit") (by decide)).append
        (Fragment.plain_parameter (.integer limit))
      exact ((hfrom.append hlimited.parens).appendRaw hname).parens

theorem plain_properties {es : List (String × Embedding)}
    (h : ∀ e ∈ es, Tabula.Unmarked e.1 ∧ e.2.render.Plain) : ∀ f ∈ properties es, f.Plain := by
  induction es with
  | nil => simp [properties]
  | cons e es ih =>
    obtain ⟨⟨hname, hplain⟩, hes⟩ := List.forall_mem_cons.1 h
    refine List.forall_mem_cons.2 ⟨?_, ih hes⟩
    simp +decide [hname, hplain]

theorem unmarked_pairs {source referenced : Table} (hsource : source.Unmarked)
    (hreferenced : referenced.Unmarked) {r : Relation} {pairs : List (Column × Column)}
    (h : pairsOf source referenced r = .ok pairs) :
    ∀ p ∈ pairs, Tabula.Unmarked p.1.name ∧ Tabula.Unmarked p.2.name := by
  intro p hp
  obtain ⟨⟨sourceField, referencedField⟩, -, hpair⟩ := exists_mem_of_mapM_eq_ok h hp
  simp only [bind_eq_ok, pure_eq_ok] at hpair
  obtain ⟨theirs, htheirs, mine, hmine, h⟩ := hpair
  cases h
  exact ⟨hreferenced.columnName _ (Table.mem_of_column? (Table.column_eq_ok.1 hmine)),
    hsource.columnName _ (Table.mem_of_column? (Table.column_eq_ok.1 htheirs))⟩

mutual

theorem plain_of_ofRelation {s : Schema} (hs : s.Unmarked) : {i : Inclusion} → {r : Relation} →
    {parent : String} → {used used' : Nat} → {e : Embedding} → Tabula.Unmarked parent →
    ofRelation s i r parent used = .ok (e, used') → e.render.Plain
  | ⟨limit, relations⟩, r, parent, used, used', e, hparent, h => by
    obtain ⟨source, referenced, nested, pairs, hsource, hreferenced, hnested, hpairs, rfl⟩ :=
      ofRelation_eq_ok.1 h
    have hsource := hs.table source (Schema.mem_of_tableNamed hsource)
    have hreferenced := hs.table referenced (Schema.mem_of_tableNamed hreferenced)
    have hlabel : Tabula.Unmarked s!"r{used + 1}" := by simp +decide
    rw [render]
    apply plain_subquery
    · exact hreferenced
    · exact hlabel
    · exact unmarked_condition hlabel hparent (unmarked_pairs hsource hreferenced hpairs)
    · exact plain_properties (plain_of_ofInclusions hs hlabel hnested)

theorem plain_of_ofInclusions {s : Schema} (hs : s.Unmarked) :
    {relations : List (String × Inclusion)} → {key parent : String} → {used used' : Nat} →
    {es : List (String × Embedding)} → Tabula.Unmarked parent →
    ofInclusions s relations key parent used = .ok (es, used') →
    ∀ e ∈ es, Tabula.Unmarked e.1 ∧ e.2.render.Plain
  | [], _, _, _, _, _, _, h => by
    obtain ⟨rfl, -⟩ := ofInclusions_nil_eq_ok.1 h
    simp
  | (name, inner) :: rest, key, parent, used, used', es, hparent, h => by
    obtain ⟨r, e, used₁, others, hr, he, hothers, rfl⟩ := ofInclusions_cons_eq_ok.1 h
    exact List.forall_mem_cons.2 ⟨⟨hs.relationName hr, plain_of_ofRelation hs hparent he⟩,
      plain_of_ofInclusions hs hparent hothers⟩

end

end Embedding

end Tabula
