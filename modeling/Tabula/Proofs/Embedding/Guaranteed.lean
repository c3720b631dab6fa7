import Tabula.Proofs.Embedding.Correlation
import Mathlib.Logic.Relation

/-!
# Rows that are always there

A relation to one row that is not optional is joined on columns that are never null and refer to the
table that it leads to. Each of them then has its value somewhere in that table, but the subquery
asks for one row that has them all, in the columns they are paired with. Such a row is always there
exactly if there is only one pair of columns, and references lead from the one to the other, or if a
row is looked for by its own columns.
-/

namespace Tabula

/-- The rows of the tables, by the names that tables and columns have in the store. -/
abbrev Content := String → List (String → Value)

/-- Equal values are found equal whatever columns they are in, and there are values that never
are. -/
structure Equality.Faithful (E : Equality) : Prop where
  same : ∀ c d v, v ≠ .null → E.compare (c, v) (d, v) = .yes
  apart : ∃ v w, v ≠ .null ∧ w ≠ .null ∧ ∀ c d, E.compare (c, v) (d, w) ≠ .yes

namespace Schema

/-- The columns that are never null have no null, and what refers to a column is found there. -/
structure Upholds (s : Schema) (D : Content) : Prop where
  notNull : ∀ t ∈ s.tables, ∀ c ∈ t.columns, c.notNull → ∀ x ∈ D t.name, x c.name ≠ .null
  references : ∀ t ∈ s.tables, ∀ c ∈ t.columns, ∀ table name,
    c.references = some (.column table name) →
      ∀ x ∈ D t.name, x c.name ≠ .null → ∃ y ∈ D table, y name = x c.name

/-- A column of a table refers to a column of a table. -/
def Refers (s : Schema) (a b : String × String) : Prop :=
  ∃ t ∈ s.tables, t.name = a.1 ∧ ∃ c ∈ t.columns, c.name = a.2 ∧
    c.references = some (.column b.1 b.2)

variable {s : Schema} {D : Content}

theorem Upholds.exists_of_refers (h : s.Upholds D) {a b : String × String} (hab : s.Refers a b)
    {x : String → Value} (hx : x ∈ D a.1) (hvalue : x a.2 ≠ .null) :
    ∃ y ∈ D b.1, y b.2 = x a.2 := by
  obtain ⟨t, ht, htable, c, hc, hcolumn, hreferences⟩ := hab
  rw [← htable] at hx
  rw [← hcolumn] at hvalue ⊢
  exact h.references t ht c hc b.1 b.2 hreferences x hx hvalue

/-- A value is found wherever references lead to from where it is. -/
theorem Upholds.exists_of_reaches (h : s.Upholds D) {a b : String × String}
    (hab : Relation.ReflTransGen s.Refers a b) {x : String → Value} (hx : x ∈ D a.1)
    (hvalue : x a.2 ≠ .null) : ∃ y ∈ D b.1, y b.2 = x a.2 := by
  induction hab with
  | refl => exact ⟨x, hx, rfl⟩
  | tail _ hbc ih =>
    obtain ⟨y, hy, hsame⟩ := ih
    rw [← hsame] at hvalue ⊢
    exact h.exists_of_refers hbc hy hvalue

end Schema

/-- What it means that a relation to one row is not optional. -/
theorem Relation.isOptional_eq_false {r : Relation} {s : Schema} (hone : r.kind = .one) :
    r.isOptional s = false ↔ ∃ source, s.tableNamed r.source = .ok source ∧
      ∀ key ∈ r.sourceFields,
        ∃ c, source.column key = .ok c ∧ c.notNull ∧ c.targets r.referenced := by
  unfold isOptional
  rw [hone]
  cases hsource : s.tableNamed? r.source with
  | none =>
    simp only [Schema.tableNamed_eq_ok, hsource]
    simp
  | some source =>
    simp only [Schema.tableNamed_eq_ok, hsource, Option.some.injEq, exists_eq_left',
      Bool.not_eq_false', List.all_eq_true, Option.any_eq_true, Bool.and_eq_true,
      Table.column_eq_ok]

namespace Embedding

variable {s : Schema} {r : Relation} {e : Embedding} {E : Equality}

/-! ## Rows that are tied -/

theorem truth_eq_yes {mine theirs : String → Value} :
    e.truth E mine theirs = .yes ↔
      ∀ p ∈ e.pairs, E.compare (p.1, mine p.1.name) (p.2, theirs p.2.name) = .yes := by
  have hjoin : ∀ a b : Truth, Logic.threeValued.join .and a b = .yes ↔ a = .yes ∧ b = .yes := by
    intro a b
    cases a <;> cases b <;> decide
  unfold truth
  induction e.pairs with
  | nil => simp [Logic.threeValued]
  | cons p pairs ih =>
    rw [List.foldr_cons, hjoin, List.forall_mem_cons]
    exact and_congr_right' ih

/-- Every row of the source has a row of the table that the relation leads to, whatever rows there
are that the store lets there be. -/
def Guaranteed (s : Schema) (E : Equality) (r : Relation) (e : Embedding) : Prop :=
  ∀ D : Content, s.Upholds D → ∀ x ∈ D r.source, ∃ y ∈ D r.referenced, e.truth E y x = .yes

/-- All pairs of columns are the same pair, and references lead from the one to the other; or the
row of the source has to be found by its own columns, in its own table. -/
inductive Determined (s : Schema) (r : Relation) (e : Embedding) : Prop
  | reached (field reference : String)
      (hpairs : ∀ p ∈ e.pairs, p.2.name = field ∧ p.1.name = reference)
      (hreaches : Relation.ReflTransGen s.Refers (r.source, field) (r.referenced, reference))
  | itself (htable : r.source = r.referenced) (hpairs : ∀ p ∈ e.pairs, p.2.name = p.1.name)

/-! ## Where there is always a row -/

section Found

variable {ds : Keyed Declaration} {source : Table} {parent : String} {D : Content}
  {x : String → Value}

theorem pairs_ne_nil_of_joins (h : e.Joins s r source parent) : e.pairs ≠ [] := by
  intro hnil
  apply h.nonempty
  rw [condition, hnil]
  rfl

theorem notNull_of_joins (h : e.Joins s r source parent) (hone : r.kind = .one)
    (hopt : r.isOptional s = false) {p : Column × Column} (hp : p ∈ e.pairs) : p.2.notNull := by
  obtain ⟨source', hsource, hfields⟩ := (Relation.isOptional_eq_false hone).1 hopt
  cases hsource.symm.trans h.source_found
  have hzip : (p.2.key, p.1.key) ∈ r.sourceFields.zip r.referencedFields :=
    h.keys ▸ List.mem_map_of_mem hp
  obtain ⟨c, hc, hnotNull, -⟩ := hfields p.2.key (List.of_mem_zip hzip).1
  cases hc.symm.trans (Table.column_eq_ok_iff.2 ⟨(h.columns p hp).2, rfl⟩)
  exact hnotNull

theorem ne_null_of_joins (hs : Schema.assemble ds = .ok s) (h : e.Joins s r source parent)
    (hone : r.kind = .one) (hopt : r.isOptional s = false) (hD : s.Upholds D) (hx : x ∈ D r.source)
    {p : Column × Column} (hp : p ∈ e.pairs) : x p.2.name ≠ .null := by
  obtain ⟨hsource, hname⟩ := (Schema.table_of_tableNamed hs).1 h.source_found
  rw [← hname] at hx
  exact hD.notNull source hsource p.2 (h.columns p hp).2 (notNull_of_joins h hone hopt hp) x hx

theorem guaranteed_of_determined (hs : Schema.assemble ds = .ok s) (h : e.Joins s r source parent)
    (hone : r.kind = .one) (hopt : r.isOptional s = false) (hE : E.Faithful)
    (hdetermined : e.Determined s r) : e.Guaranteed s E r := by
  intro D hD x hx
  have hvalue : ∀ p ∈ e.pairs, x p.2.name ≠ .null := fun p hp =>
    ne_null_of_joins hs h hone hopt hD hx hp
  suffices hfound : ∃ y ∈ D r.referenced, ∀ p ∈ e.pairs, y p.1.name = x p.2.name by
    obtain ⟨y, hy, hsame⟩ := hfound
    refine ⟨y, hy, truth_eq_yes.2 fun p hp => ?_⟩
    rw [hsame p hp]
    exact hE.same _ _ _ (hvalue p hp)
  cases hdetermined with
  | reached field reference hpairs hreaches =>
    obtain ⟨p, rest, hcons⟩ := List.exists_cons_of_ne_nil (pairs_ne_nil_of_joins h)
    have hp : p ∈ e.pairs := hcons ▸ List.mem_cons_self
    have hfield : x field ≠ .null := (hpairs p hp).1 ▸ hvalue p hp
    obtain ⟨y, hy, hsame⟩ := hD.exists_of_reaches hreaches hx hfield
    refine ⟨y, hy, fun q hq => ?_⟩
    rw [(hpairs q hq).1, (hpairs q hq).2]
    exact hsame
  | itself htable hpairs =>
    exact ⟨x, htable ▸ hx, fun p hp => by rw [hpairs p hp]⟩

end Found

/-! ## Where a row may be missing

In these contents each column of each row has one of two values that are never found equal. -/

section Missing

/-- Which columns of a row have the second of two values. -/
abbrev Pattern := String → Bool

namespace Pattern

/-- The second value in one column only. -/
def spike (column : String) : Pattern := fun c => c == column

/-- The second value in all columns but one. -/
def rest (column : String) : Pattern := fun c => c != column

/-- The second value wherever references do not lead to a column. -/
noncomputable def astray (s : Schema) (target : String × String) (table : String) : Pattern :=
  open Classical in fun c => decide ¬Relation.ReflTransGen s.Refers (table, c) target

/-- Has what a spike asks for in the first of two pairs, but not what it asks for in the second. -/
def half (k l : Column × Column) : Pattern := fun c =>
  c == k.1.name || (c == l.1.name && l.2.name != k.2.name)

/-- Rows that have each value in each column. -/
def rows (k l : Column × Column) : List Pattern :=
  [fun _ => false, rest k.1.name, half k l]

/-- The rows in every table, and in one table the spike as well. -/
def around (source : String) (k l : Column × Column) (table : String) : List Pattern :=
  if table = source then spike k.2.name :: rows k l else rows k l

variable {target : String × String} {table source column c : String} {k l : Column × Column}
  {q : Pattern}

@[simp] theorem spike_self : spike column column = true :=
  beq_self_eq_true _

theorem spike_of_ne (h : c ≠ column) : spike column c = false :=
  beq_false_of_ne h

@[simp] theorem rest_self : rest column column = false :=
  bne_self_eq_false _

theorem rest_of_ne (h : c ≠ column) : rest column c = true :=
  bne_iff_ne.2 h

theorem astray_eq_true_iff :
    astray s target table c = true ↔ ¬Relation.ReflTransGen s.Refers (table, c) target := by
  simp [astray]

@[simp] theorem astray_self : astray s (table, c) table c = false := by
  simp [astray, Relation.ReflTransGen.refl]

@[simp] theorem half_first : half k l k.1.name = true := by
  simp [half]

theorem half_second (h : k.1.name ≠ l.1.name) : half k l l.1.name = !spike k.2.name l.2.name := by
  simp [half, spike, h.symm, bne]

theorem exists_mem_rows (k l : Column × Column) (column : String) (b : Bool) :
    ∃ q ∈ rows k l, q column = b := by
  cases b with
  | false => exact ⟨_, List.mem_cons_self, rfl⟩
  | true =>
    by_cases hcolumn : column = k.1.name
    · exact ⟨half k l, by simp [rows], hcolumn ▸ half_first⟩
    · exact ⟨rest k.1.name, by simp [rows], rest_of_ne hcolumn⟩

/-- None of the rows has what the spike asks for. -/
theorem exists_ne_of_mem_rows (h : k.1.name ≠ l.1.name) (hq : q ∈ rows k l) :
    q k.1.name ≠ spike k.2.name k.2.name ∨ q l.1.name ≠ spike k.2.name l.2.name := by
  simp only [rows, List.mem_cons, List.not_mem_nil, or_false] at hq
  rcases hq with rfl | rfl | rfl
  · exact .inl (by simp)
  · exact .inl (by simp)
  · exact .inr (by simp [half_second h])

theorem mem_around :
    q ∈ around source k l table ↔ (table = source ∧ q = spike k.2.name) ∨ q ∈ rows k l := by
  unfold around
  split <;> simp [*]

end Pattern

/-- The rows of patterns. -/
def contentOf (v w : Value) (P : String → List Pattern) : Content := fun table =>
  (P table).map fun p c => if p c then w else v

variable {v w : Value} {P : String → List Pattern}

theorem upholds_contentOf (hv : v ≠ .null) (hw : w ≠ .null)
    (h : ∀ a b, s.Refers a b → ∀ p ∈ P a.1, ∃ q ∈ P b.1, q b.2 = p a.2) :
    s.Upholds (contentOf v w P) where
  notNull := by
    intro t ht c hc _ x hx
    obtain ⟨p, -, rfl⟩ := List.mem_map.1 hx
    dsimp only
    split
    · exact hw
    · exact hv
  references := by
    intro t ht c hc table name hreferences x hx _
    obtain ⟨p, hp, rfl⟩ := List.mem_map.1 hx
    obtain ⟨q, hq, hsame⟩ :=
      h (t.name, c.name) (table, name) ⟨t, ht, rfl, c, hc, rfl, hreferences⟩ p hp
    exact ⟨_, List.mem_map_of_mem hq, by rw [hsame]⟩

/-- Rows of which no one has what a row of the source asks for. -/
theorem not_guaranteed_of_patterns (hE : E.Faithful)
    (hrefers : ∀ a b, s.Refers a b → ∀ p ∈ P a.1, ∃ q ∈ P b.1, q b.2 = p a.2) {p : Pattern}
    (hp : p ∈ P r.source)
    (hnone : ∀ q ∈ P r.referenced, ∃ k ∈ e.pairs, q k.1.name ≠ p k.2.name) :
    ¬e.Guaranteed s E r := by
  intro hall
  obtain ⟨v, w, hv, hw, hapart⟩ := hE.apart
  obtain ⟨y, hy, htruth⟩ :=
    hall (contentOf v w P) (upholds_contentOf hv hw hrefers) _ (List.mem_map_of_mem hp)
  obtain ⟨q, hq, rfl⟩ := List.mem_map.1 hy
  obtain ⟨k, hk, hdiffers⟩ := hnone q hq
  have hcompare := truth_eq_yes.1 htruth k hk
  cases hmine : q k.1.name <;> cases htheirs : p k.2.name
  · exact hdiffers (hmine.trans htheirs.symm)
  · rw [hmine, htheirs] at hcompare
    exact hapart _ _ hcompare
  · rw [hmine, htheirs, E.symm] at hcompare
    exact hapart _ _ hcompare
  · exact hdiffers (hmine.trans htheirs.symm)

/-- Nothing refers to a value that is missing if every column has both values. -/
theorem not_guaranteed_of_full (hE : E.Faithful)
    (hfull : ∀ table column b, ∃ q ∈ P table, q column = b) {p : Pattern} (hp : p ∈ P r.source)
    (hnone : ∀ q ∈ P r.referenced, ∃ k ∈ e.pairs, q k.1.name ≠ p k.2.name) :
    ¬e.Guaranteed s E r :=
  not_guaranteed_of_patterns hE (fun a b _ p _ => hfull b.1 b.2 (p a.2)) hp hnone

/-- References do not lead to the column that is asked for. -/
theorem not_guaranteed_of_unreached (hE : E.Faithful) {k : Column × Column} (hk : k ∈ e.pairs)
    (hreaches : ¬Relation.ReflTransGen s.Refers (r.source, k.2.name) (r.referenced, k.1.name)) :
    ¬e.Guaranteed s E r := by
  refine not_guaranteed_of_patterns
    (P := fun table => [fun _ => false, .astray s (r.referenced, k.1.name) table]) hE ?_
    (p := .astray s (r.referenced, k.1.name) r.source) (by simp) ?_
  · intro a b hab p hp
    cases hvalue : p a.2 with
    | false => exact ⟨_, List.mem_cons_self, rfl⟩
    | true =>
      rcases List.mem_pair.1 hp with rfl | rfl
      · cases hvalue
      -- where `a` is astray so is what it refers to, as references would lead on from there
      · have hb : ¬Relation.ReflTransGen s.Refers b (r.referenced, k.1.name) := fun hb =>
          Pattern.astray_eq_true_iff.1 hvalue (.head hab hb)
        exact ⟨.astray s _ b.1, by simp, Pattern.astray_eq_true_iff.2 hb⟩
  · intro q hq
    have hmine : q k.1.name = false := by
      rcases List.mem_pair.1 hq with rfl | rfl
      · rfl
      · exact Pattern.astray_self
    rw [← Pattern.astray_eq_true_iff] at hreaches
    exact ⟨k, hk, by rw [hmine, hreaches]; decide⟩

/-- Two columns of a row have to be found in one. -/
theorem not_guaranteed_of_one_reference (hE : E.Faithful) {k l : Column × Column}
    (hk : k ∈ e.pairs) (hl : l ∈ e.pairs) (hmine : k.1.name = l.1.name)
    (htheirs : k.2.name ≠ l.2.name) : ¬e.Guaranteed s E r := by
  refine not_guaranteed_of_full
    (P := fun _ => [fun _ => false, fun _ => true, .spike k.2.name]) hE ?_
    (p := .spike k.2.name) (by simp) ?_
  · intro table column b
    exact ⟨fun _ => b, by cases b <;> simp, rfl⟩
  · intro q _
    cases hvalue : q k.1.name with
    | true => exact ⟨l, hl, by simp [← hmine, hvalue, Pattern.spike_of_ne htheirs.symm]⟩
    | false => exact ⟨k, hk, by simp [hvalue]⟩

/-- Two columns have to be found in different columns of one row, and not of that which asks for
them. -/
theorem not_guaranteed_of_two_references (hE : E.Faithful) {k l : Column × Column}
    (hk : k ∈ e.pairs) (hl : l ∈ e.pairs) (hmine : k.1.name ≠ l.1.name)
    (hother : r.source = r.referenced → k.2.name ≠ k.1.name) : ¬e.Guaranteed s E r := by
  refine not_guaranteed_of_full (P := Pattern.around r.source k l) hE ?_ (p := .spike k.2.name)
    (Pattern.mem_around.2 (.inl ⟨rfl, rfl⟩)) ?_
  · intro table column b
    obtain ⟨q, hq, hvalue⟩ := Pattern.exists_mem_rows k l column b
    exact ⟨q, Pattern.mem_around.2 (.inr hq), hvalue⟩
  · intro q hq
    rcases Pattern.mem_around.1 hq with ⟨hsame, rfl⟩ | hq
    -- the row that asks is in the table as well, but does not find itself
    · exact ⟨k, hk, by simp [Pattern.spike_of_ne (hother hsame.symm).symm]⟩
    · rcases Pattern.exists_ne_of_mem_rows hmine hq with hfirst | hsecond
      · exact ⟨k, hk, hfirst⟩
      · exact ⟨l, hl, hsecond⟩

end Missing

/-! ## The exact condition -/

theorem determined_of_guaranteed {source : Table} {parent : String} (h : e.Joins s r source parent)
    (hE : E.Faithful) (hguaranteed : e.Guaranteed s E r) : e.Determined s r := by
  by_contra hnot
  have hreaches : ∀ k ∈ e.pairs,
      Relation.ReflTransGen s.Refers (r.source, k.2.name) (r.referenced, k.1.name) := fun k hk =>
    by_contra fun hunreached => not_guaranteed_of_unreached hE hk hunreached hguaranteed
  have hreferences : ∀ k ∈ e.pairs, ∀ l ∈ e.pairs, k.1.name = l.1.name := by
    intro k hk l hl
    by_contra hmine
    obtain ⟨m, hm, hother⟩ :
        ∃ m ∈ e.pairs, r.source = r.referenced → m.2.name ≠ m.1.name := by
      by_contra hnone
      push Not at hnone
      exact hnot (.itself (hnone k hk).1 fun p hp => (hnone p hp).2)
    -- one of the two is found elsewhere than `m` is
    by_cases hfirst : m.1.name = k.1.name
    · exact not_guaranteed_of_two_references hE hm hl (hfirst ▸ hmine) hother hguaranteed
    · exact not_guaranteed_of_two_references hE hm hk hfirst hother hguaranteed
  obtain ⟨k, rest, hcons⟩ := List.exists_cons_of_ne_nil (pairs_ne_nil_of_joins h)
  have hk : k ∈ e.pairs := hcons ▸ List.mem_cons_self
  refine hnot (.reached k.2.name k.1.name (fun l hl => ⟨?_, hreferences l hl k hk⟩) (hreaches k hk))
  by_contra htheirs
  exact not_guaranteed_of_one_reference hE hl hk (hreferences l hl k hk) htheirs hguaranteed

/-- If a relation to one row is not optional, there always is a row exactly if the relation is
determined by the references of the schema. -/
theorem guaranteed_iff_determined {ds : Keyed Declaration} (hs : Schema.assemble ds = .ok s)
    (hr : s.Has r) (hone : r.kind = .one) (hopt : r.isOptional s = false) (hE : E.Faithful)
    {i : Inclusion} {parent : String} {used used' : Nat}
    (he : ofRelation s i r parent used = .ok (e, used')) :
    e.Guaranteed s E r ↔ e.Determined s r := by
  obtain ⟨source, t, hleads⟩ := hr.leads hs
  have hjoins : e.Joins s r source parent := by
    cases i
    exact (correlated_of_ofRelation hs _ hleads he).1
  exact ⟨determined_of_guaranteed hjoins hE, guaranteed_of_determined hs hjoins hone hopt hE⟩

end Embedding

/-! ## Users of several tenants -/

theorem Blog.faithful_equality : equality.Faithful where
  same := by
    intro c d v hv
    simp [equality, hv]
  apart := by
    refine ⟨.integer 0, .integer 1, by decide, by decide, fun c d => ?_⟩
    simp [equality]

namespace Tenancy

def users : Table where
  key := "users"
  name := "users"
  columns := [
    { name := "tenant_id", key := "tenantId", kind := .integer, notNull := true },
    { name := "id", key := "id", kind := .integer, notNull := true, primaryKey := true }]
  primaryKey := []
  foreignKeys := []
  columns_ne_nil := by decide
  keys_nodup := by decide

def posts : Table where
  key := "posts"
  name := "posts"
  columns := [
    { name := "tenant_id", key := "tenantId", kind := .integer, notNull := true,
      references := some (.column "users" "tenant_id") },
    { name := "author_id", key := "authorId", kind := .integer, notNull := true,
      references := some (.column "users" "id") }]
  primaryKey := []
  foreignKeys := []
  columns_ne_nil := by decide
  keys_nodup := by decide

/-- The author of a post is looked for by the number alone, or as a user of its tenant. -/
def declarations : Keyed Declaration :=
  [("users", .table users), ("posts", .table posts),
    ("postsRelations", .relations (.ofList "posts" [
      ("author", { referenced := "users", link := .one ["authorId"] ["id"] }),
      ("colleague",
        { referenced := "users", link := .one ["tenantId", "authorId"] ["tenantId", "id"] })]))]

def schema : Schema :=
  match Schema.assemble declarations with
  | .ok s => s
  | .error _ => ⟨[], [], []⟩

theorem assemble_declarations : Schema.assemble declarations = .ok schema := by
  rfl

def author : Relation :=
  ⟨.one, "posts", "users", ["authorId"], ["id"], none⟩

def colleague : Relation :=
  ⟨.one, "posts", "users", ["tenantId", "authorId"], ["tenantId", "id"], none⟩

def relations : Relations :=
  ⟨"posts", [("author", author), ("colleague", colleague)]⟩

theorem has_author : schema.Has author :=
  ⟨relations, by decide, "author", by decide⟩

theorem has_colleague : schema.Has colleague :=
  ⟨relations, by decide, "colleague", by decide⟩

def user (tenant id : Int64) : String → Value
  | "tenant_id" => .integer tenant
  | "id" => .integer id
  | _ => .null

def post (tenant author : Int64) : String → Value
  | "tenant_id" => .integer tenant
  | "author_id" => .integer author
  | _ => .null

/-- A post of the first tenant, by a user of the second. -/
def content : Content
  | "users" => [user 1 10, user 2 20]
  | "posts" => [post 1 20]
  | _ => []

theorem upholds_content : schema.Upholds content where
  notNull := by decide
  references := by
    intro t ht c hc table name hreferences x hx _
    have hposts : ∀ t ∈ schema.tables, ∀ c ∈ t.columns, c.references ≠ none → t.name = "posts" ∧
      (c.name = "tenant_id" ∧ c.references = some (.column "users" "tenant_id") ∨
        c.name = "author_id" ∧ c.references = some (.column "users" "id")) := by decide
    obtain ⟨htable, hcolumn⟩ := hposts t ht c hc (by simp [hreferences])
    rw [htable] at hx
    cases List.mem_singleton.1 hx
    rcases hcolumn with ⟨hname, htarget⟩ | ⟨hname, htarget⟩
    · cases hreferences.symm.trans htarget
      exact ⟨user 1 10, List.mem_cons_self, by rw [hname]; rfl⟩
    · cases hreferences.symm.trans htarget
      exact ⟨user 2 20, by simp [content], by rw [hname]; rfl⟩

end Tenancy

namespace Embedding

/-- An author is always there. -/
theorem guaranteed_iff_determined_author :
    Tenancy.author.isOptional Tenancy.schema = false ∧
      ∃ e used, ofRelation Tenancy.schema .empty Tenancy.author "posts" 0 = .ok (e, used) ∧
        e.Guaranteed Tenancy.schema Blog.equality Tenancy.author := by
  have hopt : Tenancy.author.isOptional Tenancy.schema = false := rfl
  have hplan : ∃ e used, ofRelation Tenancy.schema .empty Tenancy.author "posts" 0 = .ok (e, used) ∧
      ∀ p ∈ e.pairs, p.2.name = "author_id" ∧ p.1.name = "id" := ⟨_, _, rfl, by decide⟩
  obtain ⟨e, used, he, hpairs⟩ := hplan
  have hrefers : Tenancy.schema.Refers ("posts", "author_id") ("users", "id") :=
    ⟨Tenancy.posts, by decide, rfl, _, List.mem_cons_of_mem _ List.mem_cons_self, rfl, rfl⟩
  refine ⟨hopt, e, used, he, ?_⟩
  exact (guaranteed_iff_determined Tenancy.assemble_declarations Tenancy.has_author rfl hopt
    Blog.faithful_equality he).2 (.reached "author_id" "id" hpairs (.single hrefers))

/-- The author of the post is a user of another tenant. -/
theorem unmatched_of_colleague :
    Schema.assemble Tenancy.declarations = .ok Tenancy.schema ∧
      Tenancy.schema.Has Tenancy.colleague ∧ Tenancy.colleague.kind = .one ∧
      Tenancy.colleague.isOptional Tenancy.schema = false ∧
      Tenancy.schema.Upholds Tenancy.content ∧
      ∃ e used, ofRelation Tenancy.schema .empty Tenancy.colleague "posts" 0 = .ok (e, used) ∧
        ∃ x ∈ Tenancy.content "posts", ∀ y ∈ Tenancy.content "users",
          e.truth Blog.equality y x ≠ .yes :=
  ⟨Tenancy.assemble_declarations, Tenancy.has_colleague, rfl, rfl, Tenancy.upholds_content, _, _,
    rfl, Tenancy.post 1 20, List.mem_singleton_self _, by decide⟩

end Embedding

end Tabula
