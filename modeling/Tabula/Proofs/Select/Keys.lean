import Tabula.Proofs.Scope.Captured
import Tabula.Proofs.Select.Checks

/-!
# Keys of grouping and ordering

A select groups and orders by quoted names, as they are given: they are looked up neither among the
fields nor among the aliases. The store takes such a name for an item of the select list if the name
is an alias, that is the text of a leaf or the name of an included relation. Otherwise it stands for
a column as the store names it or, if there is none, for itself: a text, the same for every row.
-/

namespace Tabula

/-! ## What can be named -/

namespace Select

def groupKeys (q : Select) : List String :=
  (q.groupBy.map GroupBy.keys).getD []

def orderKeys (q : Select) : List String :=
  ((q.orderBy.map OrderBy.keys).getD []).map Prod.fst

/-- The aliases that a select gives: the texts of the leaves of its shape, or without a shape the
columns of its tables under the names of their owners, and the names of included relations. -/
inductive Output (ds : Keyed Declaration) (t : Table) (q : Select) : String → Prop
  | leaf {shape : Shape} {l : ShapeLeaf} (hshape : q.shape = some shape)
    (hl : l ∈ Shape.leaves shape) : Output ds t q l.label
  | column {owner : String} {u : Table} {c : Column} (hshape : q.shape = none)
    (howner : (owner, u) ∈ owners ds t q.joins) (hc : c ∈ u.columns) :
    Output ds t q s!"{owner}.{c.key}"
  | relation {name : String}
    (hname : name ∈ Keyed.keys (q.inclusion.getD .empty).relations) : Output ds t q name

end Select

inductive KeyClause where
  | group
  | order

/-- What a quoted name stands for behind `group by` or `order by`. -/
inductive KeyMeaning where
  /-- An item of the select list, by its place. -/
  | item (index : Nat)
  /-- The column of that name, which the store accepts of one table only. -/
  | column (table : Occurrence) (others : List Occurrence)
  /-- The name itself, as a text. -/
  | text (s : String)
deriving DecidableEq

namespace SelectPlan

section

variable {α : Type} [DecidableEq α] (read : String → α)

/-- The first item of the select list with an alias that is the same name to the store. -/
def itemNamed? (p : SelectPlan) (key : String) : Option Nat :=
  p.labels.findIdx? fun label => read (Text.identifier label) = read (Text.identifier key)

/-- The tables of the from-clause that have a column of that name. -/
def holders (p : SelectPlan) (key : String) : List Occurrence :=
  (p.tables.filter fun e => e.table.columns.any fun c =>
    read c.name = read (Text.identifier key)).map fun e => e.source.table

/-- An alias goes before a column in ordering and behind it in grouping. -/
def keyMeaning (p : SelectPlan) (clause : KeyClause) (key : String) : KeyMeaning :=
  match clause, p.itemNamed? read key, p.holders read key with
  | .order, some i, _ | .group, some i, [] => .item i
  | .order, none, table :: others | .group, _, table :: others => .column table others
  | _, none, [] => .text key

end

end SelectPlan

/-! ## Aliases -/

namespace Shape

theorem leaves_eq_flatMap (shape : Shape) :
    leaves shape = shape.flatMap fun e => leavesOfNode e.2 := by
  induction shape with
  | nil => rfl
  | cons e shape ih => rw [leaves, ih, List.flatMap_cons]

theorem leaves_ofTable (owner : String) (t : Table) :
    leaves (ofTable owner t) = t.columns.map fun c => .field s!"{owner}.{c.key}" := by
  rw [leaves_eq_flatMap, ofTable, List.flatMap_map]
  exact List.map_eq_flatMap.symm

end Shape

variable {ds : Keyed Declaration} {s : Schema} {t : Table} {key : String} {q : Select}
  {p : SelectPlan}

namespace Select

theorem mem_leaves_defaultShape {joins : List Join} {l : ShapeLeaf} :
    l ∈ Shape.leaves (defaultShape ds t joins) ↔
      ∃ o ∈ owners ds t joins, ∃ c ∈ o.2.columns, l = .field s!"{o.1}.{c.key}" := by
  rw [Shape.leaves_eq_flatMap, defaultShape, List.flatMap_append, ← Shape.leaves_eq_flatMap,
    Shape.leaves_ofTable, List.mem_append, List.mem_map, List.mem_flatMap, owners]
  constructor
  · rintro (⟨c, hc, rfl⟩ | ⟨e, he, hl⟩)
    · exact ⟨(t.key, t), by simp, c, hc, rfl⟩
    · obtain ⟨j, hj, hnested⟩ := List.mem_filterMap.1 he
      obtain ⟨u, hu, rfl⟩ := Option.map_eq_some_iff.1 hnested
      rw [Shape.leavesOfNode, Shape.leaves_ofTable] at hl
      obtain ⟨c, hc, rfl⟩ := List.mem_map.1 hl
      refine ⟨(j.label, u), List.mem_append_left _ (List.mem_filterMap.2 ?_), c, hc, rfl⟩
      exact ⟨j, List.mem_reverse.2 hj, by rw [hu]; rfl⟩
  · rintro ⟨o, ho, c, hc, rfl⟩
    rcases List.mem_append.1 ho with ho | ho
    · obtain ⟨j, hj, howner⟩ := List.mem_filterMap.1 ho
      obtain ⟨u, hu, rfl⟩ := Option.map_eq_some_iff.1 howner
      refine .inr ⟨(j.label, .nested (Shape.ofTable j.label u)), List.mem_filterMap.2 ?_, ?_⟩
      · exact ⟨j, List.mem_reverse.1 hj, by rw [hu]; rfl⟩
      · rw [Shape.leavesOfNode, Shape.leaves_ofTable]
        exact List.mem_map.2 ⟨c, hc, rfl⟩
    · rw [List.mem_singleton.1 ho] at hc ⊢
      exact .inl ⟨c, hc, rfl⟩

end Select

theorem SelectPlan.Plans.mem_labels_iff (h : p.Plans s key q) (hs : Schema.assemble ds = .ok s)
    {label : String} : label ∈ p.labels ↔ q.Output ds p.table label := by
  have hknows := SelectScope.knows_of_joins hs h.scope
  rw [labels, List.mem_append, h.mem_labels_items, h.names_eq, h.inclusion, h.shape]
  constructor
  · rintro (⟨l, hl, rfl⟩ | hname)
    · cases hshape : q.shape with
      | some shape =>
        rw [hshape] at hl
        exact .leaf hshape hl
      | none =>
        rw [hshape, Option.getD_none, hknows.shape, Select.mem_leaves_defaultShape] at hl
        obtain ⟨o, ho, c, hc, rfl⟩ := hl
        exact .column hshape ho hc
    · exact .relation hname
  · rintro (⟨hshape, hl⟩ | ⟨hshape, ho, hc⟩ | hname)
    · exact .inl ⟨_, by rwa [hshape], rfl⟩
    · refine .inl ⟨.field _, ?_, rfl⟩
      rw [hshape, Option.getD_none, hknows.shape, Select.mem_leaves_defaultShape]
      exact ⟨_, ho, _, hc, rfl⟩
    · exact .inr hname

/-! ## What keys stand for -/

section

variable {α : Type} [DecidableEq α] {read : String → α}

namespace SelectPlan

theorem itemNamed?_eq_none_iff : p.itemNamed? read key = none ↔
    ∀ label ∈ p.labels, read (Text.identifier label) ≠ read (Text.identifier key) := by
  simp [itemNamed?, List.findIdx?_eq_none_iff]

theorem exists_itemNamed?_iff : (∃ i, p.itemNamed? read key = some i) ↔
    ∃ label ∈ p.labels, read (Text.identifier label) = read (Text.identifier key) := by
  rw [← Option.ne_none_iff_exists', Ne, itemNamed?_eq_none_iff]
  simp only [not_forall, Classical.not_not, exists_prop]

theorem label_of_itemNamed? {i : Nat} (h : p.itemNamed? read key = some i) :
    ∃ label, p.labels[i]? = some label ∧
      read (Text.identifier label) = read (Text.identifier key) := by
  obtain ⟨hi, hlabel, -⟩ := List.findIdx?_eq_some_iff_getElem.1 h
  exact ⟨_, List.getElem?_eq_getElem hi, by simpa using hlabel⟩

theorem holders_eq_nil_iff : p.holders read key = [] ↔
    ∀ e ∈ p.tables, ∀ c ∈ e.table.columns, read c.name ≠ read (Text.identifier key) := by
  simp [holders, List.filter_eq_nil_iff]

theorem keyMeaning_order_eq_item {i : Nat} :
    p.keyMeaning read .order key = .item i ↔ p.itemNamed? read key = some i := by
  unfold keyMeaning
  cases p.itemNamed? read key <;> cases p.holders read key <;> simp

theorem keyMeaning_group_eq_item {i : Nat} :
    p.keyMeaning read .group key = .item i ↔
      p.itemNamed? read key = some i ∧ p.holders read key = [] := by
  unfold keyMeaning
  cases p.itemNamed? read key <;> cases p.holders read key <;> simp

theorem keyMeaning_eq_text (clause : KeyClause) :
    p.keyMeaning read clause key = .text key ↔
      p.itemNamed? read key = none ∧ p.holders read key = [] := by
  unfold keyMeaning
  cases clause <;> cases p.itemNamed? read key <;> cases p.holders read key <;> simp

/-- What the store takes a key for, by what the select names and the columns of its tables. -/
structure TakesKey (read : String → α) (p : SelectPlan) (named : String → Prop) (key : String) :
    Prop where
  order : (∃ i, p.keyMeaning read .order key = .item i) ↔
    ∃ label, named label ∧ read (Text.identifier label) = read (Text.identifier key)
  group : (∃ i, p.keyMeaning read .group key = .item i) ↔
    (∃ label, named label ∧ read (Text.identifier label) = read (Text.identifier key)) ∧
      ∀ e ∈ p.tables, ∀ c ∈ e.table.columns, read c.name ≠ read (Text.identifier key)
  item : ∀ clause i, p.keyMeaning read clause key = .item i → ∃ label, p.labels[i]? = some label ∧
    read (Text.identifier label) = read (Text.identifier key)
  text : ∀ clause, p.keyMeaning read clause key = .text key ↔
    (∀ label, named label → read (Text.identifier label) ≠ read (Text.identifier key)) ∧
      ∀ e ∈ p.tables, ∀ c ∈ e.table.columns, read c.name ≠ read (Text.identifier key)

theorem takesKey (read : String → α) (p : SelectPlan) (key : String) :
    p.TakesKey read (· ∈ p.labels) key where
  order := by
    simp only [keyMeaning_order_eq_item]
    exact exists_itemNamed?_iff
  group := by
    simp only [keyMeaning_group_eq_item, exists_and_right, holders_eq_nil_iff]
    exact and_congr_left' exists_itemNamed?_iff
  item clause i h := by
    cases clause with
    | group => exact label_of_itemNamed? (keyMeaning_group_eq_item.1 h).1
    | order => exact label_of_itemNamed? (keyMeaning_order_eq_item.1 h)
  text clause := by
    rw [keyMeaning_eq_text, itemNamed?_eq_none_iff, holders_eq_nil_iff]

end SelectPlan

/-- Whatever keys a select groups and orders by, it is compiled, and they stand in it as given. A
key is an alias if and only if it is an output of the select, which is what the store takes it for;
otherwise it stands for a column of that name or, if no table has one, for itself as a text. -/
theorem Select.keys_of_compile (hs : Schema.assemble ds = .ok s) {c : Compiled}
    (h : compile s key q = .ok c) (read : String → α) :
    ∃ p, SelectPlan.ofSelect s key q = .ok p ∧ Declarations.table? ds key = some p.table ∧
      c.fragment = p.render ∧ p.groupBy = q.groupKeys ∧ p.orderBy.map Prod.fst = q.orderKeys ∧
      (∀ groupBy orderBy, ∃ c',
        compile s key { q with groupBy := groupBy, orderBy := orderBy } = .ok c' ∧
          c'.mapper = c.mapper) ∧
      (∀ label, label ∈ p.labels ↔ q.Output ds p.table label) ∧
      ∀ k, p.TakesKey read (q.Output ds p.table) k := by
  obtain ⟨p, hp, h⟩ := bind_eq_ok.1 h
  cases h
  obtain ⟨hplans, hempty⟩ := SelectPlan.ofSelect_eq_ok.1 hp
  have hlabels : (· ∈ p.labels) = q.Output ds p.table :=
    funext fun label => propext (hplans.mem_labels_iff hs)
  refine ⟨p, hp, ?_, rfl, hplans.groupBy, by rw [hplans.orderBy, orderKeys], ?_,
    fun label => hplans.mem_labels_iff hs, fun k => hlabels ▸ p.takesKey read k⟩
  · rw [← Schema.table?_of_assemble hs]
    exact Schema.table_eq_ok.1 hplans.table
  · intro groupBy orderBy
    have hother : SelectPlan.ofSelect s key { q with groupBy := groupBy, orderBy := orderBy } =
        .ok { p with
          groupBy := (groupBy.map GroupBy.keys).getD []
          orderBy := (orderBy.map OrderBy.keys).getD [] } :=
      SelectPlan.ofSelect_eq_ok.2 ⟨{ hplans with groupBy := rfl, orderBy := rfl }, hempty⟩
    exact ⟨_, bind_eq_ok.2 ⟨_, hother, rfl⟩, rfl⟩

end

namespace Blog

/-- Posts by the alias of a column, by its key alone and by its name in the store. -/
def selectSorted : Select where
  groupBy := some ⟨["posts.authorId"]⟩
  orderBy := some ⟨[("posts.createdAt", .desc), ("createdAt", .desc), ("author_id", .asc)]⟩

end Blog

theorem Select.keys_of_compile_blog :
    ∃ c p, compile Blog.schema "posts" Blog.selectSorted = .ok c ∧
      SelectPlan.ofSelect Blog.schema "posts" Blog.selectSorted = .ok p ∧ c.fragment = p.render ∧
      (∃ i, p.keyMeaning Sql.readName .group "posts.authorId" = .item i) ∧
      (∃ i, p.keyMeaning Sql.readName .order "posts.createdAt" = .item i) ∧
      p.keyMeaning Sql.readName .order "author_id" = .column .base [] := by
  obtain ⟨c, hc⟩ : ∃ c, compile Blog.schema "posts" Blog.selectSorted = .ok c := ⟨_, rfl⟩
  obtain ⟨p, hp, hauthor, hcreated, hholders, hcolumn⟩ :
      ∃ p, SelectPlan.ofSelect Blog.schema "posts" Blog.selectSorted = .ok p ∧
        "posts.authorId" ∈ p.labels ∧ "posts.createdAt" ∈ p.labels ∧
        p.holders Sql.readName "posts.authorId" = [] ∧
        p.keyMeaning Sql.readName .order "author_id" = .column .base [] :=
    ⟨_, rfl, by decide, by decide, by decide, by decide⟩
  obtain ⟨p', hp', -, hrender, -, -, -, hlabels, hkeys⟩ :=
    keys_of_compile Blog.assemble_declarations hc Sql.readName
  cases hp.symm.trans hp'
  refine ⟨c, p, hc, hp, hrender, ?_, ?_, hcolumn⟩
  · exact (hkeys "posts.authorId").group.2
      ⟨⟨_, (hlabels _).1 hauthor, rfl⟩, SelectPlan.holders_eq_nil_iff.1 hholders⟩
  · exact (hkeys "posts.createdAt").order.2 ⟨_, (hlabels _).1 hcreated, rfl⟩

/-- The key of a column, which a filter would find, orders by a text, and so does a name that a
filter would refuse. -/
theorem Select.sorts_by_texts :
    ∃ c p, compile Blog.schema "posts"
        { orderBy := some ⟨[("createdAt", .desc), ("nope", .asc)]⟩ } = .ok c ∧
      SelectPlan.ofSelect Blog.schema "posts"
        { orderBy := some ⟨[("createdAt", .desc), ("nope", .asc)]⟩ } = .ok p ∧
      c.fragment.sql = "select posts.id as \"posts.id\", posts.author_id as \"posts.authorId\", " ++
        "posts.created_at as \"posts.createdAt\" from posts " ++
          "order by \"createdAt\" desc, \"nope\" asc" ∧
      "createdAt" ∉ p.labels ∧ "nope" ∉ p.labels ∧
      p.keyMeaning Sql.readName .order "createdAt" = .text "createdAt" ∧
      p.keyMeaning Sql.readName .order "nope" = .text "nope" ∧
      (∃ field, p.scope.fields.resolve "createdAt" = .ok field) ∧
      p.scope.fields.resolve "nope" = .error (.columnNotFound "nope") :=
  ⟨_, _, rfl, rfl, by decide +kernel, by decide, by decide, by decide, by decide, ⟨_, rfl⟩, rfl⟩

end Tabula
