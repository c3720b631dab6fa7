import Tabula.Proofs.Embedding.Plan
import Tabula.Proofs.Inclusion
import Tabula.Proofs.Schema.Relations

/-!
# Which relations an inclusion asks for

An inclusion names relations of a table and of the tables that they lead to. In an assembled schema
nothing but a name that is no relation can keep an embedding from being planned, and the first such
name, depth first, decides the error. An inclusion that resolves has no such name.
-/

namespace Tabula

namespace Declarations

def Declares (ds : Keyed Declaration) (q : Table × String) : Prop :=
  ∃ d ∈ relations ds, d.table = q.1.name ∧ d.name = q.2

instance (ds : Keyed Declaration) (q : Table × String) : Decidable (Declares ds q) :=
  inferInstanceAs (Decidable (∃ d ∈ relations ds, d.table = q.1.name ∧ d.name = q.2))

/-- The table that a relation leads to which is declared for a table. -/
def lead? (ds : Keyed Declaration) (t : Table) (name : String) : Option Table := do
  let d ← (relations ds).find? fun d => d.table = t.name ∧ d.name = name
  (tables ds).find? fun u => u.name == d.decl.referenced

end Declarations

namespace Inclusion

mutual

/-- The relations that an inclusion asks for, depth first: each name with the table that it is
asked of, and behind it what is asked of the table that the relation leads to. -/
def requests (ds : Keyed Declaration) : Inclusion → Table → List (Table × String)
  | ⟨_, relations⟩, t => requestsOf ds relations t

def requestsOf (ds : Keyed Declaration) : List (String × Inclusion) → Table → List (Table × String)
  | [], _ => []
  | (name, inner) :: rest, t =>
    (t, name) :: ((Declarations.lead? ds t name).elim [] (inner.requests ds)) ++
      requestsOf ds rest t

end

end Inclusion

variable {ds : Keyed Declaration} {s : Schema}

/-! ## Looking up what is asked for -/

namespace Schema

/-- A declared relation is found and leads to the table that its declaration says. -/
theorem exists_lead (h : assemble ds = .ok s) {t : Table} (ht : t ∈ s.tables) {name : String}
    (hdeclared : Declarations.Declares ds (t, name)) :
    ∃ r u, s.relation t.key name = .ok r ∧ Declarations.lead? ds t name = some u ∧
      s.Leads r t u := by
  obtain ⟨d₀, hd₀, hd₀table, hd₀name⟩ := hdeclared
  obtain ⟨d, hfind⟩ : ∃ d, (Declarations.relations ds).find?
      (fun d => d.table = t.name ∧ d.name = name) = some d := by
    rw [← Option.isSome_iff_exists, List.find?_isSome]
    exact ⟨d₀, hd₀, decide_eq_true ⟨hd₀table, hd₀name⟩⟩
  have hd := List.mem_of_find?_eq_some hfind
  obtain ⟨htable, hname⟩ : d.table = t.name ∧ d.name = name := by
    simpa using List.find?_some hfind
  obtain ⟨r, hr, hresolve⟩ := exists_relation h ht hd htable
  rw [hname] at hr
  have hreferenced : r.referenced = d.decl.referenced := by
    rcases resolve_eq_ok hresolve with ⟨_, _, -, rfl⟩ | ⟨_, _, -, -, rfl⟩
    · rfl
    · rfl
  obtain ⟨u, hleads⟩ := exists_leads h ht hr
  refine ⟨r, u, hr, ?_, hleads⟩
  have hu := tableNamed_eq_ok.1 hleads.referenced_found
  rw [hreferenced, tableNamed?, tables_of_assemble h] at hu
  rw [Declarations.lead?, hfind]
  exact hu

/-- Nothing is found but what is declared. -/
theorem declares_of_relation (h : assemble ds = .ok s) {t : Table} (ht : t ∈ s.tables)
    {name : String} {r : Relation} (hr : s.relation t.key name = .ok r) :
    Declarations.Declares ds (t, name) := by
  obtain ⟨rs, hrs, htable, hmem⟩ := (relation_eq_ok h ht).1 hr
  obtain ⟨d, hd, hdtable, hdname, -⟩ := exists_declared h hrs hmem
  exact ⟨d, hd, hdtable.trans htable, hdname⟩

theorem relation_eq_error (h : assemble ds = .ok s) {t : Table} (ht : t ∈ s.tables)
    {name : String} (hdeclared : ¬Declarations.Declares ds (t, name)) :
    s.relation t.key name = .error (.relationNotFound t.key name) := by
  cases hr : s.relation t.key name with
  | ok r => exact absurd (declares_of_relation h ht hr) hdeclared
  | error e =>
    unfold relation at hr
    split at hr
    · cases hr
    · exact hr.symm

end Schema

/-! ## What resolves is declared -/

namespace Inclusion

mutual

/-- All that an inclusion asks for is declared if it resolves. -/
theorem declares_of_resolves (hs : Schema.assemble ds = .ok s) : (i : Inclusion) → {t : Table} →
    t ∈ s.tables → i.Resolves s t → ∀ q ∈ i.requests ds t, Declarations.Declares ds q
  | ⟨_, relations⟩, _, ht, hi => declares_of_resolvesAll hs relations ht hi

theorem declares_of_resolvesAll (hs : Schema.assemble ds = .ok s) :
    (relations : List (String × Inclusion)) → {t : Table} → t ∈ s.tables →
    ResolvesAll s relations t → ∀ q ∈ requestsOf ds relations t, Declarations.Declares ds q
  | [], _, _, _ => List.forall_mem_nil _
  | (name, inner) :: rest, t, ht, ⟨_, ⟨r, referenced, hr, hreferenced, hinner⟩, hrest⟩ => by
    have hdeclared := Schema.declares_of_relation hs ht hr
    obtain ⟨r', u, hr', hlead, hleads⟩ := Schema.exists_lead hs ht hdeclared
    -- what is declared is found, so it leads to the table that the rest resolves in
    cases hr.symm.trans hr'
    cases hreferenced.symm.trans hleads.referenced_found
    have hu := Schema.mem_of_tableNamed hreferenced
    rw [requestsOf, hlead, Option.elim_some, List.forall_mem_append, List.forall_mem_cons]
    exact ⟨⟨hdeclared, declares_of_resolves hs inner hu hinner⟩,
      declares_of_resolvesAll hs rest ht hrest⟩

end

end Inclusion

/-! ## Planning -/

namespace Embedding

theorem exists_pairsOf {r : Relation} {source referenced : Table}
    (h : s.Leads r source referenced) :
    ∃ pairs, pairsOf source referenced r = .ok pairs := by
  have hcolumn : ∀ (t : Table) (key : String), key ∈ t.columns.map Column.key →
      ∃ c, t.column key = .ok c := by
    intro t key hkey
    obtain ⟨c, hc⟩ := Option.isSome_iff_exists.1 (Table.isSome_column?.2 hkey)
    exact ⟨c, Table.column_eq_ok.2 hc⟩
  unfold pairsOf
  rw [exists_mapM_eq_ok]
  rintro ⟨sourceField, referencedField⟩ hmem
  obtain ⟨hsource, hreferenced⟩ := List.of_mem_zip hmem
  obtain ⟨c, hc⟩ := hcolumn source sourceField (h.source_columns _ hsource)
  obtain ⟨c', hc'⟩ := hcolumn referenced referencedField (h.referenced_columns _ hreferenced)
  exact ⟨(c', c), by simp [hc, hc']⟩

def check (ds : Keyed Declaration) (q : Table × String) : Except Error Unit :=
  if Declarations.Declares ds q then .ok () else .error (.relationNotFound q.1.key q.2)

theorem check_eq_ok {q : Table × String} : check ds q = .ok () ↔ Declarations.Declares ds q := by
  unfold check
  split <;> simp [*]

mutual

/-- Apart from its result, planning is a check of the names that the inclusion asks for. -/
theorem map_unit_ofRelation (hs : Schema.assemble ds = .ok s) : (i : Inclusion) → {r : Relation} →
    {source t : Table} → s.Leads r source t → (parent : String) → (used : Nat) →
    (fun _ => ()) <$> ofRelation s i r parent used = (i.requests ds t).forM (check ds)
  | ⟨limit, relations⟩, r, source, t, hleads, parent, used => by
    have ht := (Schema.table_of_tableNamed hs).1 hleads.referenced_found
    obtain ⟨pairs, hpairs⟩ := exists_pairsOf hleads
    rw [Inclusion.requests, ← map_unit_ofInclusions hs relations ht.1 s!"r{used + 1}" (used + 1),
      ofRelation, hleads.source_found, ok_bind, hleads.referenced_found, ok_bind]
    dsimp only
    cases ofInclusions s relations t.key s!"r{used + 1}" (used + 1) with
    | error e => rfl
    | ok nested =>
      rw [ok_bind, hpairs]
      rfl

theorem map_unit_ofInclusions (hs : Schema.assemble ds = .ok s) :
    (relations : List (String × Inclusion)) → {t : Table} → t ∈ s.tables → (parent : String) →
    (used : Nat) → (fun _ => ()) <$> ofInclusions s relations t.key parent used =
      (Inclusion.requestsOf ds relations t).forM (check ds)
  | [], t, _, parent, used => rfl
  | (name, inner) :: rest, t, ht, parent, used => by
    rw [ofInclusions, Inclusion.requestsOf, List.forM_eq_forM, List.cons_append, List.forM_cons]
    by_cases hdeclared : Declarations.Declares ds (t, name)
    · obtain ⟨r, u, hr, hlead, hleads⟩ := Schema.exists_lead hs ht hdeclared
      have ih := map_unit_ofRelation hs inner hleads parent used
      rw [hr, ok_bind, check_eq_ok.2 hdeclared, ok_bind, hlead, Option.elim_some, List.forM_append,
        ← List.forM_eq_forM, ← ih]
      cases ofRelation s inner r parent used with
      | error e => rfl
      | ok first =>
        obtain ⟨e, used₁⟩ := first
        have ihs := map_unit_ofInclusions hs rest ht parent used₁
        rw [ok_bind, map_ok, ok_bind, ← ihs]
        dsimp only
        cases ofInclusions s rest t.key parent used₁ with
        | error e => rfl
        | ok others => rfl
    · rw [Schema.relation_eq_error hs ht hdeclared, error_bind, check, if_neg hdeclared]
      rfl

end

theorem exists_ofRelation_iff (hs : Schema.assemble ds = .ok s) {i : Inclusion} {r : Relation}
    {source t : Table} (hleads : s.Leads r source t) (parent : String) (used : Nat) :
    (∃ e used', ofRelation s i r parent used = .ok (e, used')) ↔
      ∀ q ∈ i.requests ds t, Declarations.Declares ds q := by
  have hplan := map_unit_ofRelation hs i hleads parent used
  rw [← Prod.exists (p := fun e => ofRelation s i r parent used = .ok e), exists_ok_iff, hplan,
    forM_eq_ok]
  simp only [check_eq_ok]

theorem exists_ofRelation_of_resolves (hs : Schema.assemble ds = .ok s) {i : Inclusion}
    {r : Relation} {source t : Table} (hleads : s.Leads r source t) (hi : i.Resolves s t)
    (parent : String) (used : Nat) : ∃ e used', ofRelation s i r parent used = .ok (e, used') := by
  have ht := Schema.mem_of_tableNamed hleads.referenced_found
  exact (exists_ofRelation_iff hs hleads parent used).2 (i.declares_of_resolves hs ht hi)

/-- The first name that is no relation decides the error. -/
theorem ofRelation_eq_error (hs : Schema.assemble ds = .ok s) {i : Inclusion} {r : Relation}
    {source t : Table} (hleads : s.Leads r source t) {q : Table × String}
    (hq : (i.requests ds t).find? (fun q => ¬Declarations.Declares ds q) = some q)
    (parent : String) (used : Nat) :
    ofRelation s i r parent used = .error (.relationNotFound q.1.key q.2) := by
  obtain ⟨hmissing, before, after, hsplit, hbefore⟩ := List.find?_eq_some_iff_append.1 hq
  refine map_unit_eq_error ?_
  rw [map_unit_ofRelation hs i hleads parent used, hsplit]
  apply forM_eq_error_of_split
  · intro p hp
    exact check_eq_ok.2 (by simpa using hbefore p hp)
  · rw [check, if_neg (by simpa using hmissing)]

end Embedding

end Tabula
