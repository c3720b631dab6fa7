import Tabula.Proofs.Embedding.Requests
import Tabula.Proofs.Embedding.Sql
import Tabula.Proofs.Filter.Grammar
import Mathlib.Data.List.Zip

/-!
# What ties included rows to the row around them

A subquery finds the rows that belong to a row by a condition: one equality for each pair of columns
that the relation is joined on. In an assembled schema no condition is empty, none names a column
that is not there, and the condition of a relation to many is that of the relation back, seen from
the other side.
-/

namespace Tabula

/-- How the store compares a value of a column with a value of another for equality. -/
structure Equality where
  compare : Column × Value → Column × Value → Truth
  symm : ∀ a b, compare a b = compare b a

namespace Embedding

variable {ds : Keyed Declaration} {s : Schema}

/-- The truth value of the condition for a row of the table and a row that it may belong to. A row
gives values by the names that columns have in the store. -/
def truth (E : Equality) (e : Embedding) (mine theirs : String → Value) : Truth :=
  e.pairs.foldr
    (fun p rest => Logic.threeValued.join .and
      (E.compare (p.1, mine p.1.name) (p.2, theirs p.2.name)) rest)
    (Logic.threeValued.unit .and)

/-- The subquery ties rows of the table that the relation leads to by the columns that the relation
is joined on to a row of its source known as `parent`. -/
structure Joins (s : Schema) (r : Relation) (source : Table) (parent : String) (e : Embedding) :
    Prop where
  kind : e.kind = r.kind
  source_found : s.tableNamed r.source = .ok source
  table_found : s.tableNamed r.referenced = .ok e.table
  paired : r.sourceFields.length = r.referencedFields.length
  keys : e.pairs.map (fun p => (p.2.key, p.1.key)) = r.sourceFields.zip r.referencedFields
  columns : ∀ p ∈ e.pairs, p.1 ∈ e.table.columns ∧ p.2 ∈ source.columns
  text : e.condition = " and ".intercalate (e.pairs.map fun p =>
    s!"{e.label}.{p.1.name} = {parent}.{p.2.name}")
  /-- The condition is what stands behind `where`. -/
  sql : e.render.sql =
    e.selection ++ s!"from {e.table.name} as {e.label} where {e.condition}" ++ e.ending
  nonempty : e.condition ≠ ""

mutual

/-- The subquery of a relation ties rows to a row of the source, and so does every subquery inside
of it to a row of the table around it. -/
def Correlated (s : Schema) : Inclusion → Relation → Table → String → Embedding → Prop
  | ⟨_, relations⟩, r, source, parent, e =>
    e.Joins s r source parent ∧ CorrelatedAll s relations e.table e.label e.nested

def CorrelatedAll (s : Schema) : List (String × Inclusion) → Table → String →
    List (String × Embedding) → Prop
  | [], _, _, es => es = []
  | (name, inner) :: rest, t, parent, es =>
    ∃ r e others, es = (name, e) :: others ∧ s.relation t.key name = .ok r ∧
      Correlated s inner r t parent e ∧ CorrelatedAll s rest t parent others

end

/-! ## Conditions -/

theorem condition_ne_empty {e : Embedding} (h : e.pairs ≠ []) : e.condition ≠ "" := by
  obtain ⟨p, rest, hpairs⟩ := List.exists_cons_of_ne_nil h
  rw [condition, hpairs, List.map_cons]
  apply intercalate_ne_empty
  have hdot : toString "." ≠ "" := by decide
  simp [hdot]

/-- Seen from the other side, each equality has its columns the other way round. -/
theorem truth_of_swap {E : Equality} {e e' : Embedding} (h : e'.pairs = e.pairs.map Prod.swap)
    (mine theirs : String → Value) : e'.truth E theirs mine = e.truth E mine theirs := by
  rw [truth, truth, h, List.foldr_map]
  congr 1
  funext p rest
  rw [E.symm]
  rfl

/-! ## Pairs of columns -/

section Pairs

variable {source referenced : Table} {r o : Relation} {pairs : List (Column × Column)}

theorem pairsOf_eq_ok :
    pairsOf source referenced r = .ok pairs ↔
      List.Forall₂ (fun k p => source.column k.1 = .ok p.2 ∧ referenced.column k.2 = .ok p.1)
        (r.sourceFields.zip r.referencedFields) pairs := by
  unfold pairsOf
  rw [mapM_eq_ok]
  refine iff_of_eq (congrArg (fun R => List.Forall₂ R _ _) ?_)
  funext ⟨sourceField, referencedField⟩ ⟨mine, theirs⟩
  apply propext
  simp only [bind_eq_ok, pure_eq_ok, Except.ok.injEq, Prod.mk.injEq]
  constructor
  · rintro ⟨c, hc, c', hc', rfl, rfl⟩
    exact ⟨hc, hc'⟩
  · rintro ⟨hc, hc'⟩
    exact ⟨theirs, hc, mine, hc', rfl, rfl⟩

theorem keys_of_pairsOf (h : pairsOf source referenced r = .ok pairs) :
    pairs.map (fun p => (p.2.key, p.1.key)) = r.sourceFields.zip r.referencedFields := by
  have hkeys : ∀ (k : String × String) (p : Column × Column),
      source.column k.1 = .ok p.2 ∧ referenced.column k.2 = .ok p.1 →
      id k = (p.2.key, p.1.key) := by
    rintro k p ⟨htheirs, hmine⟩
    exact Prod.ext (Table.column_eq_ok_iff.1 htheirs).2.symm (Table.column_eq_ok_iff.1 hmine).2.symm
  have hall := map_eq_map_of_forall₂ hkeys (pairsOf_eq_ok.1 h)
  rw [← hall, List.map_id]

theorem columns_of_pairsOf (h : pairsOf source referenced r = .ok pairs) :
    ∀ p ∈ pairs, p.1 ∈ referenced.columns ∧ p.2 ∈ source.columns := by
  intro p hp
  obtain ⟨k, -, htheirs, hmine⟩ := exists_of_forall₂ (pairsOf_eq_ok.1 h).flip hp
  exact ⟨(Table.column_eq_ok_iff.1 hmine).1, (Table.column_eq_ok_iff.1 htheirs).1⟩

theorem pairs_ne_nil (hleads : s.Leads r source referenced)
    (h : pairsOf source referenced r = .ok pairs) : pairs ≠ [] := by
  rintro rfl
  have hzip := keys_of_pairsOf h
  have hlength := congrArg List.length hzip
  rw [List.map_nil, List.length_nil, List.length_zip, hleads.paired, Nat.min_self, ← hleads.paired]
    at hlength
  exact hleads.nonempty (List.eq_nil_of_length_eq_zero hlength.symm)

/-- A relation with the same columns the other way round has the same pairs the other way round. -/
theorem pairsOf_swap (hsource : r.sourceFields = o.referencedFields)
    (hreferenced : r.referencedFields = o.sourceFields)
    (h : pairsOf source referenced r = .ok pairs) :
    pairsOf referenced source o = .ok (pairs.map Prod.swap) := by
  rw [pairsOf_eq_ok] at h ⊢
  rw [← hsource, ← hreferenced, ← List.zip_swap, List.forall₂_map_left_iff,
    List.forall₂_map_right_iff]
  exact h.imp fun _ _ hp => hp.symm

end Pairs

/-! ## Planned subqueries -/

mutual

theorem correlated_of_ofRelation (hs : Schema.assemble ds = .ok s) : (i : Inclusion) →
    {r : Relation} → {source t : Table} → s.Leads r source t → {parent : String} →
    {used used' : Nat} → {e : Embedding} → ofRelation s i r parent used = .ok (e, used') →
    Correlated s i r source parent e
  | ⟨limit, relations⟩, r, source, t, hleads, parent, used, used', e, he => by
    obtain ⟨source', referenced, nested, pairs, hsource, hreferenced, hnested, hpairs, rfl⟩ :=
      ofRelation_eq_ok.1 he
    have hsame : source' = source := Except.ok.inj (hsource.symm.trans hleads.source_found)
    have hsame' : referenced = t := Except.ok.inj (hreferenced.symm.trans hleads.referenced_found)
    subst hsame hsame'
    have hmem := Schema.mem_of_tableNamed hreferenced
    refine ⟨?_, correlated_of_ofInclusions hs relations hmem hnested⟩
    exact {
      kind := rfl
      source_found := hsource
      table_found := hreferenced
      paired := hleads.paired
      keys := keys_of_pairsOf hpairs
      columns := columns_of_pairsOf hpairs
      text := rfl
      sql := sql_render _
      nonempty := condition_ne_empty (pairs_ne_nil hleads hpairs) }

theorem correlated_of_ofInclusions (hs : Schema.assemble ds = .ok s) :
    (relations : List (String × Inclusion)) → {t : Table} → t ∈ s.tables → {parent : String} →
    {used used' : Nat} → {es : List (String × Embedding)} →
    ofInclusions s relations t.key parent used = .ok (es, used') →
    CorrelatedAll s relations t parent es
  | [], t, _, parent, used, used', es, hes => (ofInclusions_nil_eq_ok.1 hes).1
  | (name, inner) :: rest, t, ht, parent, used, used', es, hes => by
    obtain ⟨r, e, used₁, others, hr, he, hothers, rfl⟩ := ofInclusions_cons_eq_ok.1 hes
    obtain ⟨u, hleads⟩ := Schema.exists_leads hs ht hr
    exact ⟨r, e, others, rfl, hr, correlated_of_ofRelation hs inner hleads he,
      correlated_of_ofInclusions hs rest ht hothers⟩

end

/-- Relations that are paired are joined on the same columns, so that the conditions of their
subqueries hold of the same pairs of rows. -/
theorem truth_of_pairs (hs : Schema.assemble ds = .ok s) {r o : Relation} (hr : s.Has r)
    (ho : s.Has o) (hpairs : r.Pairs o) {i i' : Inclusion} {parent parent' : String}
    {used used₁ used' used₁' : Nat} {e e' : Embedding}
    (he : ofRelation s i r parent used = .ok (e, used₁))
    (he' : ofRelation s i' o parent' used' = .ok (e', used₁')) (E : Equality)
    (x y : String → Value) : e.truth E y x = e'.truth E x y := by
  cases i with | mk limit relations =>
  cases i' with | mk limit' relations' =>
  obtain ⟨source, referenced, nested, pairs, hsource, hreferenced, -, hcolumns, rfl⟩ :=
    ofRelation_eq_ok.1 he
  obtain ⟨source', referenced', nested', pairs', hsource', hreferenced', -, hcolumns', rfl⟩ :=
    ofRelation_eq_ok.1 he'
  obtain ⟨hfields, hreferences⟩ := Schema.fields_of_pairs hs hr ho hpairs
  rw [hpairs.source, hreferenced] at hsource'
  rw [hpairs.referenced, hsource] at hreferenced'
  cases hsource'
  cases hreferenced'
  rw [pairsOf_swap hfields hreferences hcolumns] at hcolumns'
  cases hcolumns'
  exact (truth_of_swap rfl y x).symm

/-- Subqueries of an assembled schema. For every relation there is one exactly if all that the
inclusion asks for is declared, and the first name that is not decides the error. All of its
conditions are equalities, one for each pair of the columns that the relation is joined on, which
stand behind `where` in the SQL, and the condition of a relation to many is that of the relation it
is paired with. -/
theorem ofRelation_of_assembled (hs : Schema.assemble ds = .ok s) {g : Relations}
    (hg : g ∈ s.relations) {name : String} {r : Relation} (hr : (name, r) ∈ g.fields) :
    ∃ source t, s.tableNamed r.source = .ok source ∧ s.tableNamed r.referenced = .ok t ∧
      (∀ (i : Inclusion) (parent : String) (used : Nat),
        ((∃ e used', ofRelation s i r parent used = .ok (e, used')) ↔
          ∀ q ∈ i.requests ds t, Declarations.Declares ds q) ∧
        (∀ q, (i.requests ds t).find? (fun q => ¬Declarations.Declares ds q) = some q →
          ofRelation s i r parent used = .error (.relationNotFound q.1.key q.2)) ∧
        ∀ e used', ofRelation s i r parent used = .ok (e, used') →
          Correlated s i r source parent e) ∧
      (r.kind = .many →
        (∃ o, s.Has o ∧ r.Pairs o) ∧
        ∀ o, s.Has o → r.Pairs o → ∀ i i' parent parent' used used₁ used' used₁' e e',
          ofRelation s i r parent used = .ok (e, used₁) →
          ofRelation s i' o parent' used' = .ok (e', used₁') →
          ∀ (E : Equality) (x y : String → Value), e.truth E y x = e'.truth E x y) := by
  have hhas : s.Has r := ⟨g, hg, name, hr⟩
  obtain ⟨source, t, hleads⟩ := hhas.leads hs
  refine ⟨source, t, hleads.source_found, hleads.referenced_found, ?_, ?_⟩
  · intro i parent used
    refine ⟨exists_ofRelation_iff hs hleads parent used, ?_, ?_⟩
    · intro q hq
      exact ofRelation_eq_error hs hleads hq parent used
    · intro e used' he
      exact correlated_of_ofRelation hs i hleads he
  · intro hmany
    refine ⟨Schema.exists_pairs hs hhas hmany, ?_⟩
    intro o ho hpairs i i' parent parent' used used₁ used' used₁' e e' he he' E x y
    exact truth_of_pairs hs hhas ho hpairs he he' E x y

end Embedding

namespace Blog

/-- An author is a user, and users have no comments. -/
def withComments : Inclusion :=
  ⟨none, [("author", ⟨none, [("comments", .empty)]⟩)]⟩

/-- Values are equal if they are written alike, and it is not known whether `NULL` equals anything. -/
def equality : Equality where
  compare a b :=
    if a.2 = .null ∨ b.2 = .null then .unknown else if a.2 = b.2 then .yes else .no
  symm := by
    intro a b
    simp only [or_comm, eq_comm]

theorem pairs_userPosts : userPosts.Pairs postAuthor :=
  ⟨rfl, rfl, rfl, rfl, .inl rfl⟩

theorem has_postAuthor : schema.Has postAuthor :=
  ⟨⟨"posts", [("author", postAuthor)]⟩, by decide, "author", List.mem_singleton_self _⟩

end Blog

theorem Embedding.ofRelation_of_assembled_blog :
    ofRelation Blog.schema Blog.withComments Blog.userPosts "app_users" 0 =
      .error (.relationNotFound "users" "comments") ∧
    ∃ e used e' used', ofRelation Blog.schema .empty Blog.userPosts "app_users" 0 = .ok (e, used) ∧
      ofRelation Blog.schema .empty Blog.postAuthor "posts" 0 = .ok (e', used') ∧
      e.condition ≠ "" ∧
      ∀ x y, e.truth Blog.equality y x = e'.truth Blog.equality x y := by
  obtain ⟨source, t, hsource, ht, hplan, hmany⟩ := ofRelation_of_assembled
    Blog.assemble_declarations (g := ⟨"app_users", [("posts", Blog.userPosts)]⟩) (by decide)
    (List.mem_singleton_self _)
  have htable : Blog.schema.tableNamed Blog.userPosts.referenced =
      .ok (Blog.posts.withKey "posts") := rfl
  cases ht.symm.trans htable
  obtain ⟨hsucceeds, -, hcorrelated⟩ := hplan .empty "app_users" 0
  obtain ⟨-, hfails, -⟩ := hplan Blog.withComments "app_users" 0
  obtain ⟨e, used, he⟩ := hsucceeds.2 (by decide)
  obtain ⟨-, htruth⟩ := hmany rfl
  have he' : ∃ e' used', ofRelation Blog.schema .empty Blog.postAuthor "posts" 0 = .ok (e', used') :=
    ⟨_, _, rfl⟩
  obtain ⟨e', used', he'⟩ := he'
  refine ⟨hfails (Blog.users.withKey "users", "comments") (by decide), e, used, e', used', he, he',
    ?_, ?_⟩
  · obtain ⟨hjoins, -⟩ := hcorrelated e used he
    exact hjoins.nonempty
  · exact htruth Blog.postAuthor Blog.has_postAuthor Blog.pairs_userPosts _ _ _ _ _ _ _ _ e e' he he'
      Blog.equality

end Tabula
