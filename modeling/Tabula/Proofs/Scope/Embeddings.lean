import Tabula.Proofs.Embedding.Correlation
import Tabula.Proofs.Scope.Statement

/-!
# Which tables the names in included rows denote

A subquery knows its table by an alias and the row around it by the name that this row has there.
The aliases are numbered, so none is that of a row around it, and all that subqueries inside of
subqueries refer to is what is meant. At the top the row around has the name that its table has in
the store, which may be an alias as well.
-/

namespace Tabula

/-! ## Numbers -/

namespace Embedding

section

variable {α : Type} (read : String → α)

mutual

/-- Rows are tied to a row around them, and so are those inside of them, under names that are not
that of the row around. -/
def Tied : Embedding → Prop
  | ⟨_, _, label, _, pairs, _, nested⟩ => pairs ≠ [] ∧ TiedAll label nested

def TiedAll : String → List (String × Embedding) → Prop
  | _, [] => True
  | label, (_, e) :: rest =>
    e.parent = label ∧ read e.label ≠ read label ∧ Tied e ∧ TiedAll label rest

end

end

mutual

/-- The aliases of an embedding and of those inside of it, in the order in which they begin. -/
def labels : Embedding → List String
  | ⟨_, _, label, _, _, _, nested⟩ => label :: labelsAll nested

def labelsAll : List (String × Embedding) → List String
  | [] => []
  | (_, e) :: rest => e.labels ++ labelsAll rest

end

variable {s : Schema} {α : Type} {read : String → α}

mutual

/-- The aliases are numbered one after another. -/
theorem labels_of_ofRelation : (i : Inclusion) → {r : Relation} → {parent : String} →
    {used used' : Nat} → {e : Embedding} → ofRelation s i r parent used = .ok (e, used') →
    ∃ n, used' = used + n ∧ e.labels = (List.range' (used + 1) n).map fun k => s!"r{k}"
  | ⟨limit, relations⟩, r, parent, used, used', e, h => by
    obtain ⟨source, referenced, nested, pairs, -, -, hnested, -, rfl⟩ := ofRelation_eq_ok.1 h
    obtain ⟨n, rfl, hlabels⟩ := labels_of_ofInclusions relations hnested
    refine ⟨n + 1, by omega, ?_⟩
    rw [labels, hlabels, List.range'_succ, List.map_cons]

theorem labels_of_ofInclusions : (relations : List (String × Inclusion)) → {key parent : String} →
    {used used' : Nat} → {es : List (String × Embedding)} →
    ofInclusions s relations key parent used = .ok (es, used') →
    ∃ n, used' = used + n ∧ labelsAll es = (List.range' (used + 1) n).map fun k => s!"r{k}"
  | [], key, parent, used, used', es, h => by
    obtain ⟨rfl, rfl⟩ := ofInclusions_nil_eq_ok.1 h
    exact ⟨0, rfl, rfl⟩
  | (name, inner) :: rest, key, parent, used, used', es, h => by
    obtain ⟨r, e, used₁, others, -, he, hothers, rfl⟩ := ofInclusions_cons_eq_ok.1 h
    obtain ⟨n, rfl, hfirst⟩ := labels_of_ofRelation inner he
    obtain ⟨m, rfl, hrest⟩ := labels_of_ofInclusions rest hothers
    refine ⟨n + m, by omega, ?_⟩
    have hrange : List.range' (used + 1) (n + m) =
        List.range' (used + 1) n ++ List.range' (used + n + 1) m := by
      rw [Nat.add_right_comm, List.range'_append_1]
    rw [labelsAll, hfirst, hrest, hrange, List.map_append]

end

mutual

theorem tied_of_ofRelation (ha : s.Assembled)
    (hread : ∀ m n : Nat, read s!"r{m}" = read s!"r{n}" → m = n) : (i : Inclusion) →
    {key name : String} → {r : Relation} → s.relation key name = .ok r → {parent : String} →
    {used used' : Nat} → {e : Embedding} → ofRelation s i r parent used = .ok (e, used') →
    e.Tied read
  | ⟨limit, relations⟩, key, name, r, hr, parent, used, used', e, h => by
    obtain ⟨source, referenced, nested, pairs, hsource, hreferenced, hnested, hpairs, rfl⟩ :=
      ofRelation_eq_ok.1 h
    obtain ⟨source', referenced', hleads⟩ := ha.leads_of_relation hr
    obtain rfl := Except.ok.inj (hsource.symm.trans hleads.source_found)
    obtain rfl := Except.ok.inj (hreferenced.symm.trans hleads.referenced_found)
    exact ⟨pairs_ne_nil hleads hpairs,
      tied_of_ofInclusions ha hread relations hnested (Nat.le_refl _)⟩

/-- What begins later has a greater number. -/
theorem tied_of_ofInclusions (ha : s.Assembled)
    (hread : ∀ m n : Nat, read s!"r{m}" = read s!"r{n}" → m = n) :
    (relations : List (String × Inclusion)) → {key : String} → {m used used' : Nat} →
    {es : List (String × Embedding)} →
    ofInclusions s relations key s!"r{m}" used = .ok (es, used') → m ≤ used →
    TiedAll read s!"r{m}" es
  | [], key, m, used, used', es, h, hm => by
    obtain ⟨rfl, rfl⟩ := ofInclusions_nil_eq_ok.1 h
    trivial
  | (name, inner) :: rest, key, m, used, used', es, h, hm => by
    obtain ⟨r, e, used₁, others, hr, he, hothers, rfl⟩ := ofInclusions_cons_eq_ok.1 h
    obtain ⟨n, hused, -⟩ := labels_of_ofRelation inner he
    have htied := tied_of_ofRelation ha hread inner hr he
    have hrest := tied_of_ofInclusions ha hread rest hothers (by omega)
    obtain ⟨limit, relations⟩ := inner
    obtain ⟨source, referenced, nested, pairs, -, -, -, -, rfl⟩ := ofRelation_eq_ok.1 he
    refine ⟨rfl, fun heq => ?_, htied, hrest⟩
    have hnumber := hread _ _ heq
    omega

end

end Embedding

section

variable {α : Type} [DecidableEq α] {read : String → α} {scopes : List (List Source)}

/-! ## What names denote -/

theorem denotes_of_read {source : Source} {name : String} (h : read source.name = read name) :
    denotes read ([source] :: scopes) name = some source.table := by
  simp [denotes, h]

theorem denotes_outer {source : Source} {name : String} (h : read source.name ≠ read name) :
    denotes read ([source] :: scopes) name = denotes read scopes name := by
  simp [denotes, h]

theorem filter_read_eq {sources : List Source}
    (hnodup : (sources.map fun source => read source.name).Nodup) {source : Source}
    (h : source ∈ sources) :
    (sources.filter fun other => read other.name = read source.name) = [source] := by
  induction sources with
  | nil => cases h
  | cons first sources ih =>
    obtain ⟨hfirst, hnodup⟩ := List.nodup_cons.1 hnodup
    rcases List.mem_cons.1 h with rfl | h
    · rw [List.filter_cons_of_pos (by simp), List.filter_eq_nil_iff.2]
      intro other hother
      simpa using fun heq => hfirst (List.mem_map.2 ⟨other, hother, heq⟩)
    · have hne : read first.name ≠ read source.name :=
        fun heq => hfirst (List.mem_map.2 ⟨source, h, heq.symm⟩)
      rw [List.filter_cons_of_neg (by simpa using hne), ih hnodup h]

/-- Under names that all differ, each denotes its table. -/
theorem denotes_of_nodup {sources : List Source}
    (hnodup : (sources.map fun source => read source.name).Nodup) {source : Source}
    (h : source ∈ sources) : denotes read (sources :: scopes) source.name = some source.table := by
  rw [denotes, filter_read_eq hnodup h]

/-- A name that denotes a table is there once. -/
theorem count_of_denotes {sources : List Source} {name : String} {table : Occurrence}
    (h : denotes read [sources] name = some table) :
    (sources.map fun source => read source.name).count (read name) = 1 := by
  have hlength : (sources.filter fun source => read source.name = read name).length = 1 := by
    unfold denotes at h
    split at h
    · cases h
    · rename_i hfilter
      rw [hfilter]
      rfl
    · cases h
  rw [← hlength, List.count, List.countP_map, List.countP_eq_length_filter]
  rfl

theorem nodup_of_count {first : α} {rest : List α}
    (h : ∀ a ∈ rest, (first :: rest).count a = 1) : (first :: rest).Nodup := by
  rw [List.nodup_iff_count_le_one]
  intro a
  -- the first name needs no count of its own: it could only come again in the rest
  by_cases ha : a ∈ rest
  · exact Nat.le_of_eq (h a ha)
  · rw [List.count_cons, List.count_eq_zero_of_not_mem ha]
    split <;> simp

/-! ## Included rows -/

theorem captured_column {source : Source} (c : Column)
    (h : denotes read scopes source.name = some source.table) :
    (source.column c).Captured read scopes := by
  rintro r ⟨⟩
  exact h

theorem Column.captured_embeddedParts (c : Column) {source : Source}
    (h : denotes read scopes source.name = some source.table) :
    ∀ part ∈ c.embeddedParts source, part.Captured read scopes := by
  have hcolumn := captured_column c h
  unfold embeddedParts
  cases c.kind <;> simp [hcolumn]

theorem Part.forall_mem_intercalate {P : Part → Prop} {separator : Part} (hs : P separator)
    {lines : List (List Part)} :
    (∀ part ∈ [separator].intercalate lines, P part) ↔ ∀ parts ∈ lines, ∀ part ∈ parts, P part := by
  induction lines with
  | nil => simp
  | cons parts lines ih =>
    cases lines with
    | nil => simp
    | cons next lines =>
      rw [List.intercalate_cons_cons, List.forall_mem_append, List.forall_mem_append, ih,
        List.forall_mem_cons (l := next :: lines)]
      simp [hs]

namespace Embedding

/-- A condition compares with the row around unless the table has the name of that row. -/
theorem captured_conditionParts {e : Embedding} (hpairs : e.pairs ≠ []) {mine around : Occurrence}
    (hne : mine ≠ around) (hparent : denotes read scopes e.parent = some around) :
    (∀ part ∈ e.conditionParts mine around, part.Captured read ([⟨e.label, mine⟩] :: scopes)) ↔
      read e.label ≠ read e.parent := by
  rw [conditionParts, Part.forall_mem_intercalate (Part.captured_text _), List.forall_mem_map]
  constructor
  · intro h heq
    obtain ⟨p, rest, hp⟩ := List.exists_cons_of_ne_nil hpairs
    have htheirs := h p (hp ▸ List.mem_cons_self) (Source.column ⟨e.parent, around⟩ p.2) (by simp)
    have hmine : denotes read ([⟨e.label, mine⟩] :: scopes) e.parent = some mine :=
      denotes_of_read heq
    exact hne (Option.some.inj (hmine.symm.trans (htheirs _ rfl)))
  · intro hlabel p _ part hpart
    simp only [List.mem_cons, List.not_mem_nil, or_false] at hpart
    rcases hpart with rfl | rfl | rfl
    · exact captured_column p.1 (denotes_of_read rfl)
    · exact Part.captured_text _
    · exact captured_column p.2 ((denotes_outer hlabel).trans hparent)

theorem captured_objectSql {e : Embedding} {mine : Occurrence} {nested : List Sql}
    (hmine : denotes read scopes e.label = some mine)
    (hnested : ∀ f ∈ nested, f.Captured read scopes) :
    (e.objectSql mine nested).Captured read scopes := by
  refine ⟨⟨trivial, Sql.captured_join.2 fun f hf => ?_⟩, trivial⟩
  rcases List.mem_append.1 hf with hf | hf
  · obtain ⟨c, -, rfl⟩ := List.mem_map.1 hf
    exact List.forall_mem_cons.2 ⟨Part.captured_text _, c.captured_embeddedParts hmine⟩
  · exact hnested f hf

/-! ### From-clauses -/

theorem source?_embeddedParts (c : Column) (source : Source) :
    ∀ part ∈ c.embeddedParts source, part.source? = none := by
  unfold Column.embeddedParts
  cases c.kind <;> simp [Source.column, Part.source?]

theorem source?_conditionParts (e : Embedding) (mine around : Occurrence) :
    ∀ part ∈ e.conditionParts mine around, part.source? = none := by
  refine (Part.forall_mem_intercalate (P := fun part => part.source? = none) rfl).2 ?_
  intro parts hparts
  obtain ⟨p, -, rfl⟩ := List.mem_map.1 hparts
  simp [Source.column, Part.source?]

theorem sources_objectSql (e : Embedding) (mine : Occurrence) {nested : List Sql}
    (hnested : ∀ f ∈ nested, f.sources = []) : (e.objectSql mine nested).sources = [] := by
  have hcolumns : ∀ c : Column, (Sql.line (.text s!"'{c.key}', " ::
      c.embeddedParts ⟨e.label, mine⟩)).sources = [] := by
    intro c
    refine List.filterMap_eq_nil_iff.2 (List.forall_mem_cons.2 ⟨rfl, ?_⟩)
    exact source?_embeddedParts c _
  rw [objectSql, Sql.sources, Sql.sources, Sql.sources_join, List.flatMap_eq_nil_iff.2]
  · rfl
  · intro f hf
    rcases List.mem_append.1 hf with hf | hf
    · obtain ⟨c, -, rfl⟩ := List.mem_map.1 hf
      exact hcolumns c
    · exact hnested f hf

/-- The rows of an embedding stand in a select of their own. -/
theorem sources_toSql (e : Embedding) (path : List Nat) (around : Occurrence) :
    (e.toSql path around).sources = [] := by
  obtain ⟨kind, table, label, parent, pairs, limit, nested⟩ := e
  unfold toSql subquerySql
  cases kind <;> exact Sql.sources_parens _

theorem sources_propertiesSql (es : List (String × Embedding)) (path : List Nat) (place : Nat) :
    ∀ f ∈ propertiesSql es path place, f.sources = [] := by
  induction es generalizing place with
  | nil => simp [propertiesSql]
  | cons e es ih =>
    obtain ⟨name, e⟩ := e
    refine List.forall_mem_cons.2 ⟨?_, ih (place + 1)⟩
    rw [Sql.sources, Sql.sources, sources_toSql]
    rfl

theorem sources_rowsSql (e : Embedding) (start : String) (mine around : Occurrence) :
    (e.rowsSql start mine around).sources = [⟨e.label, mine⟩] := by
  have hcondition : (e.conditionParts mine around).filterMap Part.source? = [] :=
    List.filterMap_eq_nil_iff.2 (source?_conditionParts e mine around)
  rw [rowsSql, Sql.sources, List.filterMap_cons, List.filterMap_cons, List.filterMap_cons,
    hcondition]
  rfl

/-- An embedding is right if and only if its table has another name than the row around it. -/
theorem captured_subquerySql {e : Embedding} (hpairs : e.pairs ≠ []) {mine around : Occurrence}
    (hne : mine ≠ around) (hparent : denotes read scopes e.parent = some around)
    {nested : List Sql} (hsources : ∀ f ∈ nested, f.sources = [])
    (hnested : ∀ f ∈ nested, f.Captured read ([⟨e.label, mine⟩] :: scopes)) :
    (e.subquerySql mine around nested).Captured read scopes ↔ read e.label ≠ read e.parent := by
  have hobject : (e.objectSql mine nested).Captured read ([⟨e.label, mine⟩] :: scopes) :=
    captured_objectSql (denotes_of_read rfl) hnested
  have hrows : ∀ start, (e.rowsSql start mine around).Captured read ([⟨e.label, mine⟩] :: scopes) ↔
      read e.label ≠ read e.parent := by
    intro start
    rw [← captured_conditionParts hpairs hne hparent, rowsSql, Sql.Captured, List.forall_mem_cons,
      List.forall_mem_cons, List.forall_mem_cons]
    simp
  have hnone := sources_objectSql e mine hsources
  unfold subquerySql
  cases e.kind with
  | one =>
    simp [Sql.Captured, sources_rowsSql, hnone, hobject, hrows]
  | many =>
    cases e.limit <;>
      simp [Sql.Captured, Sql.sources, Part.source?, sources_rowsSql, hnone, hobject, hrows]

/-! ### Embeddings in embeddings -/

mutual

theorem captured_toSql : (e : Embedding) → e.Tied read → {scopes : List (List Source)} →
    {path : List Nat} → {around : Occurrence} → denotes read scopes e.parent = some around →
    .rows path ≠ around →
    ((e.toSql path around).Captured read scopes ↔ read e.label ≠ read e.parent)
  | ⟨kind, table, label, parent, pairs, limit, nested⟩, ⟨hpairs, hnested⟩, scopes, path, around,
      hparent, hne => by
    rw [toSql]
    exact captured_subquerySql hpairs hne hparent (sources_propertiesSql nested path 0)
      (captured_propertiesSql nested hnested (denotes_of_read rfl))

theorem captured_propertiesSql : (es : List (String × Embedding)) → {label : String} →
    TiedAll read label es → {scopes : List (List Source)} → {path : List Nat} → {place : Nat} →
    denotes read scopes label = some (.rows path) →
    ∀ f ∈ propertiesSql es path place, f.Captured read scopes
  | [], label, _, scopes, path, place, _ => by simp [propertiesSql]
  | (name, e) :: rest, label, ⟨hparent, hname, he, hrest⟩, scopes, path, place, hlabel => by
    rw [← hparent] at hname hlabel
    have hne : Occurrence.rows (place :: path) ≠ .rows path := by simp
    -- the inner alias does not hide the alias around, which its condition refers to
    have hproperty := (captured_toSql e he hlabel hne).2 hname
    rw [hparent] at hlabel
    exact List.forall_mem_cons.2 ⟨⟨⟨trivial, hproperty⟩, trivial⟩,
      captured_propertiesSql rest hrest hlabel⟩

end

end Embedding

end

end Tabula
