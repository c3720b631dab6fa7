import Tabula.Proofs.Embedding.Faults
import Tabula.Proofs.Schema.Assembled
import Tabula.Proofs.Select.Shape
import Tabula.Proofs.Select.Plan

/-!
# What the rows of a select become

The store answers a select with rows that have a value for each selected item, and then one for each
embedding, all under the aliases of the select list. Aliases that are kept apart lead the mapper
back to the values that the items were selected for.
-/

namespace Tabula

/-! ## The default shape -/

/-- Each join adds the columns of its table, under its label, behind what is there. -/
theorem SelectScope.exists_joined {s : Schema} {joins : List Join} {scope scope' : SelectScope}
    (h : joins.foldlM (join s) scope = .ok scope') :
    ∃ joined, List.Forall₂ (fun (j : Join) e => ∃ t, s.table j.table = .ok t ∧
        e = (j.label, ShapeNode.nested (Shape.ofTable j.label t))) joins joined ∧
      scope'.shape = scope.shape ++ joined := by
  induction joins generalizing scope with
  | nil =>
    cases h
    exact ⟨[], .nil, (List.append_nil _).symm⟩
  | cons j joins ih =>
    rw [List.foldlM_cons] at h
    obtain ⟨scope₁, hjoin, h⟩ := bind_eq_ok.1 h
    obtain ⟨t, column, operator, field, key, ht, -, -, rfl⟩ := exists_of_join hjoin
    obtain ⟨joined, hjoined, hshape⟩ := ih h
    refine ⟨_ :: joined, .cons ⟨t, ht, rfl⟩ hjoined, ?_⟩
    rw [hshape, List.append_assoc, List.singleton_append]

/-! ## Rows -/

namespace SelectPlan

/-- The aliases of the select list. -/
def labels (p : SelectPlan) : List String :=
  p.items.map SelectItem.label ++ p.embeddings.map Prod.fst

/-- A row that answers the plan: the values of its items, then the payloads of its embeddings. -/
def row (p : SelectPlan) (values payloads : List Value) : Row :=
  .ofColumns p.labels (values ++ payloads)

/-- Included relations and expressions have names of their own. -/
structure Apart (p : SelectPlan) : Prop where
  names : (Keyed.keys p.inclusion.relations).Nodup
  keys : ∀ name ∈ Keyed.keys p.inclusion.relations, name ∉ Keyed.keys p.shape
  leaves : ∀ name ∈ Keyed.keys p.inclusion.relations, ∀ l ∈ Shape.leaves p.shape, l.label ≠ name
  expressions : ∀ key, .field key ∈ Shape.leaves p.shape → .raw key ∉ Shape.leaves p.shape

/-- What a row gives at a leaf. The value of a field is that of the item with the SQL of the field,
and its column decodes it; an expression has an item of its own. -/
inductive Gives (p : SelectPlan) (values : List Value) : ShapeLeaf → Except Error Json → Prop where
  | field {key : String} {f : Field} {v : Value} (hf : p.scope.fields.resolve key = .ok f)
    (hv : (⟨key, f.sql⟩, v) ∈ p.items.zip values) : Gives p values (.field key) (f.column.decode v)
  | raw {expression : String} {v : Value}
    (hv : (⟨expression, expression⟩, v) ∈ p.items.zip values) :
    Gives p values (.raw expression) (.ok v.toJson)

/-- What a row gives of an included relation: what the relation reads from the payload of its own
embedding. -/
def GivesRows (s : Schema) (p : SelectPlan) (payloads : List Value) (i : String × Inclusion)
    (result : Except Error Json) : Prop :=
  ∃ e r v, ((i.1, e), v) ∈ p.embeddings.zip payloads ∧ s.relation p.table.key i.1 = .ok r ∧
    result = r.decode s i.2 v.toJson

end SelectPlan

/-! ## Reading -/

namespace SelectMapper

/-- The rows of an included relation. -/
def included (m : SelectMapper) (row : Row) (i : String × Inclusion) : Except Error Json := do
  let r ← m.schema.relation m.table i.1
  r.decode m.schema i.2 ((row.get? i.1).getD .null).toJson

theorem mapRow_eq (m : SelectMapper) (row : Row) :
    m.mapRow row = (do
      let shaped ← nodes m.fields row m.shape
      let included ← m.inclusion.relations.mapM fun i => (fun j => (i.1, j)) <$> m.included row i
      return .obj (Keyed.putAll shaped included)) := by
  have hstep : ∀ i : String × Inclusion,
      (do
        let r ← m.schema.relation m.table i.1
        return (i.1, ← r.decode m.schema i.2 ((row.get? i.1).getD .null).toJson)) =
        (fun j => (i.1, j)) <$> m.included row i := by
    intro i
    rw [included]
    cases m.schema.relation m.table i.1 with
    | error e => rfl
    | ok r =>
      rw [ok_bind, ok_bind]
      cases r.decode m.schema i.2 ((row.get? i.1).getD .null).toJson with
      | error e => rfl
      | ok j => rfl
  rw [← funext hstep]
  rfl

/-- Under the name of a relation the result has what is included, whatever the shape has there. -/
theorem get?_included {m : SelectMapper} {row : Row} {j : Json}
    (hnames : (Keyed.keys m.inclusion.relations).Nodup) (h : m.mapRow row = .ok j) :
    ∃ members, j = .obj members ∧ ∀ i ∈ m.inclusion.relations, ∃ x, m.included row i = .ok x ∧
      Keyed.get? members i.1 = some x := by
  rw [mapRow_eq] at h
  obtain ⟨shaped, -, h⟩ := bind_eq_ok.1 h
  obtain ⟨included, hincluded, h⟩ := bind_eq_ok.1 h
  cases h
  have hentries := mapM_eq_ok.1 hincluded
  have hkeys : Keyed.keys m.inclusion.relations = Keyed.keys included := by
    refine map_eq_map_of_forall₂ (fun i e he => ?_) hentries
    obtain ⟨x, -, rfl⟩ := map_eq_ok.1 he
    rfl
  rw [hkeys] at hnames
  refine ⟨_, rfl, fun i hi => ?_⟩
  obtain ⟨e, hmem, he⟩ := exists_of_forall₂ hentries hi
  obtain ⟨x, hx, rfl⟩ := map_eq_ok.1 he
  refine ⟨x, hx, ?_⟩
  rw [Keyed.get?_putAll hnames, (Keyed.get?_eq_some_iff hnames).2 hmem, Option.some_or]

end SelectMapper

/-! ## Plans -/

theorem exists_mem_zip {α β : Type} {xs : List α} {ys : List β} (h : ys.length = xs.length) {x : α}
    (hx : x ∈ xs) : ∃ y, (x, y) ∈ xs.zip ys := by
  rw [← List.map_fst_zip (Nat.le_of_eq h.symm)] at hx
  obtain ⟨⟨x', y⟩, hmem, rfl⟩ := List.mem_map.1 hx
  exact ⟨y, hmem⟩

namespace SelectPlan

variable {s : Schema} {key : String} {q : Select} {p : SelectPlan} {values payloads : List Value}

/-- Every leaf has an item, and every item a leaf. -/
theorem Plans.leaf_of_mem (h : p.Plans s key q) {i : SelectItem} (hi : i ∈ p.items) :
    ∃ l ∈ Shape.leaves p.shape, SelectItem.ofLeaf p.scope.fields l = .ok i := by
  obtain ⟨items, hitems, hdistinct⟩ := h.items
  rw [SelectItem.ofEntries_eq] at hitems
  exact exists_mem_of_mapM_eq_ok hitems (SelectItem.mem_of_mem_distinct (hdistinct ▸ hi))

theorem Plans.exists_item (h : p.Plans s key q)
    (hexpressions : ∀ key, .field key ∈ Shape.leaves p.shape → .raw key ∉ Shape.leaves p.shape)
    {l : ShapeLeaf} (hl : l ∈ Shape.leaves p.shape) :
    ∃ i ∈ p.items, SelectItem.ofLeaf p.scope.fields l = .ok i := by
  obtain ⟨items, hitems, hdistinct⟩ := h.items
  rw [SelectItem.ofEntries_eq] at hitems
  obtain ⟨i, hi, hof⟩ := exists_of_forall₂ (mapM_eq_ok.1 hitems) hl
  have hlabel := SelectItem.label_mem_distinct hi
  rw [← hdistinct] at hlabel
  obtain ⟨k, hk, hsame⟩ := List.mem_map.1 hlabel
  obtain ⟨l', hl', hof'⟩ := h.leaf_of_mem hk
  -- The item that was kept is that of a leaf with the same label, so of the same leaf.
  have hleaves : l'.label = l.label := by
    rw [← SelectItem.label_of_ofLeaf hof', hsame, SelectItem.label_of_ofLeaf hof]
  have hleaf : l' = l := by
    cases l' with
    | field key =>
      cases l with
      | field key' => exact congrArg ShapeLeaf.field hleaves
      | raw expression =>
        cases hleaves
        exact absurd hl (hexpressions key hl')
    | raw expression =>
      cases l with
      | field key =>
        cases hleaves
        exact absurd hl' (hexpressions _ hl)
      | raw expression' => exact congrArg ShapeLeaf.raw hleaves
  subst hleaf
  exact ⟨k, hk, hof'⟩

theorem Plans.names_eq (h : p.Plans s key q) :
    p.embeddings.map Prod.fst = Keyed.keys p.inclusion.relations := by
  obtain ⟨used, hembeddings⟩ := h.embeddings
  exact Embedding.names_of_ofInclusions hembeddings

theorem Plans.nodup_items (h : p.Plans s key q) : (p.items.map SelectItem.label).Nodup := by
  obtain ⟨items, -, hdistinct⟩ := h.items
  exact hdistinct ▸ SelectItem.nodup_distinct items

/-- The aliases of the items are the texts of the leaves. -/
theorem Plans.mem_labels_items (h : p.Plans s key q) {label : String} :
    label ∈ p.items.map SelectItem.label ↔ ∃ l ∈ Shape.leaves p.shape, l.label = label := by
  constructor
  · intro hlabel
    obtain ⟨i, hi, rfl⟩ := List.mem_map.1 hlabel
    obtain ⟨l, hl, hof⟩ := h.leaf_of_mem hi
    exact ⟨l, hl, (SelectItem.label_of_ofLeaf hof).symm⟩
  · rintro ⟨l, hl, rfl⟩
    obtain ⟨items, hitems, hdistinct⟩ := h.items
    rw [SelectItem.ofEntries_eq] at hitems
    obtain ⟨i, hi, hof⟩ := exists_of_forall₂ (mapM_eq_ok.1 hitems) hl
    rw [hdistinct, ← SelectItem.label_of_ofLeaf hof]
    exact SelectItem.label_mem_distinct hi

section

variable (h : p.Plans s key q) (hvalues : values.length = p.items.length)
  (hpayloads : payloads.length = p.embeddings.length)

include hvalues in
theorem cells_row : (p.row values payloads).cells =
    (p.items.zip values).map (Prod.map SelectItem.label id) ++
      (p.embeddings.zip payloads).map (Prod.map Prod.fst id) := by
  have hlength : (p.items.map SelectItem.label).length = values.length := by
    rw [List.length_map, hvalues]
  rw [row, Row.ofColumns, labels, List.zip_append hlength, List.zip_map_left, List.zip_map_left]

include hvalues in
theorem keys_items_row : Keyed.keys ((p.items.zip values).map (Prod.map SelectItem.label id)) =
    p.items.map SelectItem.label := by
  rw [← List.zip_map_left, Keyed.keys, List.map_fst_zip]
  simp [hvalues]

include h hvalues in
/-- Under the alias of an item stands its value. -/
theorem get?_item {i : SelectItem} {v : Value} (hv : (i, v) ∈ p.items.zip values) :
    (p.row values payloads).get? i.label = some v := by
  have hnodup := h.nodup_items
  rw [← keys_items_row hvalues] at hnodup
  have hmem : (i.label, v) ∈ (p.items.zip values).map (Prod.map SelectItem.label id) :=
    List.mem_map.2 ⟨(i, v), hv, rfl⟩
  rw [Row.get?, cells_row hvalues, Keyed.get?_append, (Keyed.get?_eq_some_iff hnodup).2 hmem,
    Option.some_or]

include h hvalues hpayloads in
/-- Under the name of an embedding stands its payload, unless an item has that name as alias. -/
theorem get?_payload (hnames : (Keyed.keys p.inclusion.relations).Nodup)
    {e : String × Embedding} {v : Value} (hfresh : e.1 ∉ p.items.map SelectItem.label)
    (hv : (e, v) ∈ p.embeddings.zip payloads) : (p.row values payloads).get? e.1 = some v := by
  have hkeys : Keyed.keys ((p.embeddings.zip payloads).map (Prod.map Prod.fst id)) =
      Keyed.keys p.inclusion.relations := by
    rw [← h.names_eq, ← List.zip_map_left, Keyed.keys, List.map_fst_zip]
    simp [hpayloads]
  rw [← keys_items_row hvalues] at hfresh
  have hmem : (e.1, v) ∈ (p.embeddings.zip payloads).map (Prod.map Prod.fst id) :=
    List.mem_map.2 ⟨(e, v), hv, rfl⟩
  rw [Row.get?, cells_row hvalues, Keyed.get?_append, Keyed.get?_eq_none_iff.2 hfresh,
    Option.none_or, (Keyed.get?_eq_some_iff (hkeys ▸ hnames)).2 hmem]

include h hvalues in
/-- The mapper reads at each leaf what the row gives there. -/
theorem gives_leaf
    (hexpressions : ∀ key, .field key ∈ Shape.leaves p.shape → .raw key ∉ Shape.leaves p.shape)
    {l : ShapeLeaf} (hl : l ∈ Shape.leaves p.shape) :
    p.Gives values l (SelectMapper.leaf p.scope.fields (p.row values payloads) l) := by
  obtain ⟨i, hi, hof⟩ := h.exists_item hexpressions hl
  obtain ⟨v, hv⟩ := exists_mem_zip hvalues hi
  have hcell : SelectMapper.cell (p.row values payloads) i.label = .ok v := by
    rw [SelectMapper.cell, get?_item h hvalues hv]
  cases l with
  | field key =>
    obtain ⟨f, hf, rfl⟩ := map_eq_ok.1 hof
    rw [SelectMapper.leaf, hcell, ok_bind, hf, ok_bind]
    exact .field hf hv
  | raw expression =>
    cases hof
    rw [SelectMapper.leaf, hcell, map_ok]
    exact .raw hv

include h hvalues hpayloads in
/-- The mapper reads of a relation the payload that the row gives of it, unless a leaf is selected
under the name of the relation. -/
theorem exists_rows (hnames : (Keyed.keys p.inclusion.relations).Nodup) (m : SelectMapper)
    (hschema : m.schema = s) (htable : m.table = p.table.key)
    {i : String × Inclusion} (hi : i ∈ p.inclusion.relations)
    (hfresh : ∀ l ∈ Shape.leaves p.shape, l.label ≠ i.1) :
    p.GivesRows s payloads i (m.included (p.row values payloads) i) ∧
      ∀ e, m.included (p.row values payloads) i = .error e → e.OfValue := by
  obtain ⟨used, hembeddings⟩ := h.embeddings
  obtain ⟨⟨name, found⟩, hfound, hname, r, used, used', hr, hplan⟩ :=
    exists_of_forall₂ (Embedding.planned_of_ofInclusions hembeddings) hi
  obtain rfl : name = i.1 := hname
  obtain ⟨v, hv⟩ := exists_mem_zip hpayloads hfound
  have hlabel : i.1 ∉ p.items.map SelectItem.label := by
    rw [h.mem_labels_items]
    rintro ⟨l, hl, heq⟩
    exact hfresh l hl heq
  have hget := get?_payload h hvalues hpayloads hnames hlabel hv
  have hincluded : m.included (p.row values payloads) i = r.decode s i.2 v.toJson := by
    rw [SelectMapper.included, hschema, htable, hr, ok_bind, hget, Option.getD_some]
  rw [hincluded]
  exact ⟨⟨found, r, v, hv, hr, rfl⟩, Relation.ofValue_of_decode i.2 hplan v.toJson⟩

end

theorem ofValue_of_gives {l : ShapeLeaf} {e : Error} {x : Except Error Json}
    (h : p.Gives values l x) (hx : x = .error e) : e.OfValue := by
  cases h with
  | field hf hv => exact Column.ofValue_of_decode hx
  | raw hv => cases hx

end SelectPlan

/-- The mapper of a select agrees with its SQL. Whatever values and payloads a row has under the
aliases of the select list, reading it fails only where one of them cannot be decoded. If all can,
the result is the shape with the value of the right item at each leaf, and behind it the rows of
each included relation, read from the payload of its own embedding. -/
theorem Select.mapRow_of_compile {s : Schema} {key : String} {q : Select} {c : Compiled}
    (hc : Select.compile s key q = .ok c) :
    ∃ p : SelectPlan, SelectPlan.ofSelect s key q = .ok p ∧ c.fragment = p.render ∧
      (∃ joined, List.Forall₂ (fun (j : Join) e => ∃ t, s.table j.table = .ok t ∧
          e = (j.label, ShapeNode.nested (Shape.ofTable j.label t))) q.joins joined ∧
        p.shape = q.shape.getD (Shape.ofTable p.table.key p.table ++ joined)) ∧
      (p.Apart → ∀ values payloads, values.length = p.items.length →
        payloads.length = p.embeddings.length →
        ∃ (read : ShapeLeaf → Except Error Json) (rows : String × Inclusion → Except Error Json),
          (∀ l ∈ Shape.leaves p.shape, p.Gives values l (read l)) ∧
          (∀ i ∈ p.inclusion.relations, p.GivesRows s payloads i (rows i)) ∧
          (∀ e, c.mapper.mapRow (p.row values payloads) = .error e →
            e.OfValue ∧ ((∃ l ∈ Shape.leaves p.shape, read l = .error e) ∨
              ∃ i ∈ p.inclusion.relations, rows i = .error e)) ∧
          ∀ (value : ShapeLeaf → Json) (included : String × Inclusion → Json),
            (∀ l ∈ Shape.leaves p.shape, read l = .ok (value l)) →
            (∀ i ∈ p.inclusion.relations, rows i = .ok (included i)) →
            c.mapper.mapRow (p.row values payloads) = .ok (.obj (Shape.fill value p.shape ++
              p.inclusion.relations.map fun i => (i.1, included i)))) := by
  obtain ⟨p, hplan, hcompiled⟩ := bind_eq_ok.1 hc
  cases hcompiled
  have hp := SelectPlan.plans_of_ofSelect hplan
  obtain ⟨joined, hjoined, hshape⟩ := SelectScope.exists_joined hp.scope
  refine ⟨p, hplan, rfl, ⟨joined, hjoined, hp.shape.trans (congrArg q.shape.getD hshape)⟩, ?_⟩
  intro ha values payloads hvalues hpayloads
  let m : SelectMapper := ⟨s, p.table.key, p.scope.fields, p.shape, p.inclusion⟩
  let row := p.row values payloads
  have hgives : ∀ l ∈ Shape.leaves p.shape, p.Gives values l (SelectMapper.leaf m.fields row l) :=
    fun l hl => SelectPlan.gives_leaf hp hvalues ha.expressions hl
  have hrows := fun i (hi : i ∈ p.inclusion.relations) =>
    SelectPlan.exists_rows hp hvalues hpayloads ha.names m rfl rfl hi
      (ha.leaves i.1 (List.mem_map_of_mem hi))
  refine ⟨SelectMapper.leaf m.fields row, m.included row, hgives, fun i hi => (hrows i hi).1, ?_, ?_⟩
  · intro e he
    change m.mapRow row = .error e at he
    rw [SelectMapper.mapRow_eq] at he
    rcases bind_eq_error.1 he with he | ⟨shaped, -, he⟩
    · obtain ⟨l, hl, hleaf⟩ := SelectMapper.exists_leaf_of_nodes p.shape he
      exact ⟨SelectPlan.ofValue_of_gives (hgives l hl) hleaf, .inl ⟨l, hl, hleaf⟩⟩
    rcases bind_eq_error.1 he with he | ⟨all, -, he⟩
    · obtain ⟨i, hi, hincluded⟩ := exists_of_mapM_eq_error he
      rw [map_eq_error] at hincluded
      exact ⟨(hrows i hi).2 e hincluded, .inr ⟨i, hi, hincluded⟩⟩
    · cases he
  · intro value included hvalue hincluded
    have hnodes := SelectMapper.nodes_of_leaves p.shape hvalue
    have hall : p.inclusion.relations.mapM (fun i => (fun j => (i.1, j)) <$> m.included row i) =
        .ok (p.inclusion.relations.map fun i => (i.1, included i)) := by
      rw [mapM_eq_ok, List.forall₂_map_right_iff, List.forall₂_same]
      intro i hi
      rw [hincluded i hi, map_ok]
    have hkeys : Keyed.keys (p.inclusion.relations.map fun i => (i.1, included i)) =
        Keyed.keys p.inclusion.relations := by
      rw [Keyed.keys, Keyed.keys, List.map_map]
      rfl
    have hput := Keyed.putAll_of_fresh (m := Shape.fill value p.shape) (hkeys ▸ ha.names) (by
      rw [hkeys, Shape.keys_fill]
      exact ha.keys)
    change m.mapRow row = _
    rw [SelectMapper.mapRow_eq, hnodes, ok_bind, hall, ok_bind, hput]
    rfl

namespace Blog

/-- Posts with their author, under keys that the table does not have. -/
def selectPosts : Select where
  shape := some [("id", .field "posts.id"),
    ("more", .nested [("by", .field "authorId"), ("sum", .raw "1 + 1")])]
  inclusion := some ⟨none, [("author", .empty)]⟩

def planPosts : SelectPlan where
  table := posts.withKey "posts"
  scope := .ofTable (posts.withKey "posts")
  shape := [("id", .field "posts.id"),
    ("more", .nested [("by", .field "authorId"), ("sum", .raw "1 + 1")])]
  items := [⟨"posts.id", "posts.id"⟩, ⟨"authorId", "posts.author_id"⟩, ⟨"1 + 1", "1 + 1"⟩]
  inclusion := ⟨none, [("author", .empty)]⟩
  embeddings := [("author", ⟨.one, users.withKey "users", "r1", "posts",
    [({ name := "id", key := "id", kind := .integer, primaryKey := true },
      { name := "author_id", key := "authorId", kind := .integer })], none, []⟩)]
  filter := none
  groupBy := []
  having := none
  orderBy := []
  limit := none
  offset := none

theorem plan_selectPosts : SelectPlan.ofSelect schema "posts" selectPosts = .ok planPosts := by
  rfl

end Blog

theorem Select.mapRow_of_compile_blog :
    ∃ c, compile Blog.schema "posts" Blog.selectPosts = .ok c ∧
      ∀ (id author sum payload : Value) (e : Error),
        c.mapper.mapRow ⟨[("posts.id", id), ("authorId", author), ("1 + 1", sum),
          ("author", payload)]⟩ = .error e → e.OfValue := by
  obtain ⟨c, hc⟩ : ∃ c, compile Blog.schema "posts" Blog.selectPosts = .ok c := ⟨_, rfl⟩
  refine ⟨c, hc, ?_⟩
  intro id author sum payload e he
  obtain ⟨p, hp, -, -, hread⟩ := mapRow_of_compile hc
  cases hp.symm.trans Blog.plan_selectPosts
  have hapart : Blog.planPosts.Apart := {
    names := by decide
    keys := by decide
    leaves := by decide
    expressions := by simp [Blog.planPosts, Shape.leaves, Shape.leavesOfNode] }
  obtain ⟨read, rows, -, -, hfails, -⟩ := hread hapart [id, author, sum] [payload] rfl rfl
  exact (hfails e he).1

end Tabula
