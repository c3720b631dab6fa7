import Tabula.Proofs.Select.Fields
import Tabula.Proofs.Select.Mapping

/-!
# The outputs of a select

The select list and the result object have a place for each leaf of the shape and for each included
relation. Leaves share an item only under the same text; but relations go by their names, whatever
the leaves and the keys of the shape are called. A relation with the name of a leaf is read from the
item of the leaf, and one with the name of a key takes the place of what the shape has there.
-/

namespace Tabula

/-! ## The default shape -/

/-- Since a label that is taken is refused, the default shape has no key twice. -/
theorem SelectScope.nodup_shape_of_joins {s : Schema} {t : Table} {joins : List Join}
    {scope : SelectScope} (h : joins.foldlM (join s) (ofTable t) = .ok scope) :
    (Keyed.keys scope.shape).Nodup := by
  refine joins_induction (P := fun _ scope => (Keyed.keys scope.shape).Nodup) ?_ ?_ h
  · rw [ofTable, Shape.keys_ofTable]
    exact t.keys_nodup
  · intro before scope j scope' hscope hjoin
    obtain ⟨table, condition, column, field, -, -, -, hlabel, -, -, rfl⟩ := join_eq_ok.1 hjoin
    have hfresh : j.label ∉ Keyed.keys scope.shape := by
      rw [← Keyed.has_iff, hlabel]
      exact Bool.false_ne_true
    rw [joined, ← Keyed.put_of_fresh hfresh]
    exact Keyed.nodup_keys_put hscope _ _

namespace SelectPlan

variable {s : Schema} {key : String} {q : Select} {p : SelectPlan}

theorem Plans.nodup_shape (h : p.Plans s key q)
    (hq : ∀ shape ∈ q.shape, (Keyed.keys shape).Nodup) : (Keyed.keys p.shape).Nodup := by
  rw [h.shape]
  cases hgiven : q.shape with
  | none => exact SelectScope.nodup_shape_of_joins h.scope
  | some shape => exact hq shape hgiven

/-! ## The select list -/

/-- No alias comes twice if and only if no relation is named as a leaf. -/
theorem Plans.nodup_labels_iff (h : p.Plans s key q)
    (hnames : (Keyed.keys p.inclusion.relations).Nodup) :
    p.labels.Nodup ↔ ∀ name ∈ Keyed.keys p.inclusion.relations,
      ∀ l ∈ Shape.leaves p.shape, l.label ≠ name := by
  rw [labels, h.names_eq, List.nodup_append]
  constructor
  · rintro ⟨-, -, hdisjoint⟩ name hname l hl heq
    exact hdisjoint name (h.mem_labels_items.2 ⟨l, hl, heq⟩) name hname rfl
  · intro hfresh
    refine ⟨h.nodup_items, hnames, fun label hlabel name hname heq => ?_⟩
    obtain ⟨l, hl, hlabel⟩ := h.mem_labels_items.1 hlabel
    exact hfresh name hname l hl (hlabel.trans heq)

end SelectPlan

/-! ## The result -/

namespace SelectMapper

variable {m : SelectMapper} {row : Row} {j : Json}

/-- The result of a row has the keys of the shape, then the names of relations that are no keys of
it. Under the name of a relation stands what is included, under any other key what the shape has
there. -/
theorem members_of_mapRow (hnames : (Keyed.keys m.inclusion.relations).Nodup)
    (hshape : (Keyed.keys m.shape).Nodup) (h : m.mapRow row = .ok j) :
    ∃ members, j = .obj members ∧
      Keyed.keys members = Keyed.keys m.shape ++
        (Keyed.keys m.inclusion.relations).filter (fun name => name ∉ Keyed.keys m.shape) ∧
      (∀ e ∈ m.shape, e.1 ∉ Keyed.keys m.inclusion.relations →
        ∃ x, node m.fields row e.2 = .ok x ∧ Keyed.get? members e.1 = some x) ∧
      ∀ i ∈ m.inclusion.relations, ∃ x, m.included row i = .ok x ∧
        Keyed.get? members i.1 = some x := by
  obtain ⟨members, rfl, hrelations⟩ := get?_included hnames h
  rw [mapRow_eq] at h
  obtain ⟨shaped, hshaped, h⟩ := bind_eq_ok.1 h
  obtain ⟨included, hincluded, h⟩ := bind_eq_ok.1 h
  cases h
  have hmembers := members_of_nodes hshaped
  have hentries := mapM_eq_ok.1 hincluded
  have hkeysShaped : Keyed.keys m.shape = Keyed.keys shaped :=
    map_eq_map_of_forall₂ (fun _ _ hm => hm.1) hmembers
  have hkeysIncluded : Keyed.keys m.inclusion.relations = Keyed.keys included := by
    refine map_eq_map_of_forall₂ (fun i e he => ?_) hentries
    obtain ⟨x, -, rfl⟩ := map_eq_ok.1 he
    rfl
  rw [hkeysIncluded] at hnames
  rw [hkeysShaped] at hshape
  refine ⟨_, rfl, ?_, ?_, hrelations⟩
  · rw [Keyed.keys_putAll hnames, hkeysShaped, hkeysIncluded]
  · intro e he hfresh
    obtain ⟨⟨k, x⟩, hmem, hkey, hnode⟩ := exists_of_forall₂ hmembers he
    obtain rfl : e.1 = k := hkey
    rw [hkeysIncluded] at hfresh
    refine ⟨x, hnode, ?_⟩
    rw [Keyed.get?_putAll hnames, Keyed.get?_eq_none_iff.2 hfresh, Option.none_or,
      (Keyed.get?_eq_some_iff hshape).2 hmem]

end SelectMapper

/-- No alias of a select comes twice if and only if no included relation has the name of a leaf of
the shape, and the result of a row loses a key if and only if one has the name of a top-level key.
What neither of them takes is there and comes from its own item: an entry of the shape under a key
that no relation has, and a relation whose name no leaf has. -/
theorem Select.outputs_of_compile {s : Schema} {key : String} {q : Select} {c : Compiled}
    (hc : compile s key q = .ok c) (hshape : ∀ shape ∈ q.shape, (Keyed.keys shape).Nodup)
    (hinclusion : ∀ i ∈ q.inclusion, (Keyed.keys i.relations).Nodup) :
    ∃ p : SelectPlan, SelectPlan.ofSelect s key q = .ok p ∧ c.fragment = p.render ∧
      (p.labels.Nodup ↔ ∀ name ∈ Keyed.keys p.inclusion.relations,
        ∀ l ∈ Shape.leaves p.shape, l.label ≠ name) ∧
      ∀ values payloads, values.length = p.items.length →
        payloads.length = p.embeddings.length →
        ∀ j, c.mapper.mapRow (p.row values payloads) = .ok j → ∃ members, j = .obj members ∧
          Keyed.keys members = Keyed.keys p.shape ++
            (Keyed.keys p.inclusion.relations).filter (fun name => name ∉ Keyed.keys p.shape) ∧
          ((∀ key, .field key ∈ Shape.leaves p.shape → .raw key ∉ Shape.leaves p.shape) →
            ∀ e ∈ p.shape, e.1 ∉ Keyed.keys p.inclusion.relations →
              ∃ value, Keyed.get? members e.1 = some (Shape.fillNode value e.2) ∧
                ∀ l ∈ Shape.leavesOfNode e.2, p.Gives values l (.ok (value l))) ∧
          ∀ i ∈ p.inclusion.relations, (∀ l ∈ Shape.leaves p.shape, l.label ≠ i.1) →
            ∃ x, Keyed.get? members i.1 = some x ∧ p.GivesRows s payloads i (.ok x) := by
  obtain ⟨p, hplan, hcompiled⟩ := bind_eq_ok.1 hc
  cases hcompiled
  have hp := SelectPlan.plans_of_ofSelect hplan
  have hnames : (Keyed.keys p.inclusion.relations).Nodup := by
    rw [hp.inclusion]
    cases hgiven : q.inclusion with
    | none => exact List.nodup_nil
    | some i => exact hinclusion i hgiven
  refine ⟨p, hplan, rfl, hp.nodup_labels_iff hnames, ?_⟩
  intro values payloads hvalues hpayloads j hj
  let m : SelectMapper := ⟨s, p.table.key, p.scope.fields, p.shape, p.inclusion⟩
  obtain ⟨members, rfl, hkeys, hentries, hrelations⟩ :=
    SelectMapper.members_of_mapRow (m := m) hnames (hp.nodup_shape hshape) hj
  refine ⟨members, rfl, hkeys, ?_, ?_⟩
  · intro hexpressions e he hfresh
    obtain ⟨x, hx, hget⟩ := hentries e he hfresh
    obtain ⟨value, hvalue, rfl⟩ := SelectMapper.exists_fill_of_node hx
    refine ⟨value, hget, fun l hl => ?_⟩
    rw [← hvalue l hl]
    exact SelectPlan.gives_leaf hp hvalues hexpressions (Shape.mem_leaves he hl)
  · intro i hi hfresh
    obtain ⟨x, hx, hget⟩ := hrelations i hi
    obtain ⟨hgives, -⟩ := SelectPlan.exists_rows hp hvalues hpayloads hnames m rfl rfl hi hfresh
    rw [hx] at hgives
    exact ⟨x, hget, hgives⟩

theorem Select.outputs_of_compile_blog :
    Blog.planPosts.labels.Nodup ∧
      ∃ c, compile Blog.schema "posts" Blog.selectPosts = .ok c ∧
        ∀ (id author sum payload : Value) (j : Json),
          c.mapper.mapRow (Blog.planPosts.row [id, author, sum] [payload]) = .ok j →
          ∃ members x, j = .obj members ∧ Keyed.keys members = ["id", "more", "author"] ∧
            Keyed.get? members "author" = some x ∧
            Blog.planPosts.GivesRows Blog.schema [payload] ("author", .empty) (.ok x) := by
  obtain ⟨c, hc⟩ : ∃ c, compile Blog.schema "posts" Blog.selectPosts = .ok c := ⟨_, rfl⟩
  obtain ⟨p, hp, -, hlabels, hread⟩ := outputs_of_compile hc
    (by simp [Blog.selectPosts, Keyed.keys]) (by simp [Blog.selectPosts, Keyed.keys])
  cases hp.symm.trans Blog.plan_selectPosts
  have hfresh : ∀ l ∈ Shape.leaves Blog.planPosts.shape, l.label ≠ "author" := by decide
  refine ⟨hlabels.2 (by decide), c, hc, fun id author sum payload j hj => ?_⟩
  obtain ⟨members, rfl, hkeys, -, hrelations⟩ :=
    hread [id, author, sum] [payload] rfl rfl j hj
  obtain ⟨x, hget, hgives⟩ := hrelations ("author", .empty) (List.mem_singleton_self _) hfresh
  exact ⟨members, x, rfl, hkeys, hget, hgives⟩

namespace Blog

/-- The author of a note goes by the same name as a column and as a relation. -/
def notes : Table where
  key := "notes"
  name := "notes"
  columns := [
    { name := "id", key := "id", kind := .integer, primaryKey := true },
    { name := "author_id", key := "author", kind := .integer }]
  primaryKey := []
  foreignKeys := []
  columns_ne_nil := by decide
  keys_nodup := by decide

def notebook : Schema :=
  match Schema.assemble [("users", .table users), ("notes", .table notes),
      ("notesRelations", .relations (.ofList "notes"
        [("author", { referenced := "app_users", link := .one ["author"] ["id"] })]))] with
  | .ok s => s
  | .error _ => ⟨[], [], []⟩

/-- Who wrote a note, and what is known of them. -/
def selectWriter : Select where
  shape := some [("writer", .field "author")]
  inclusion := some ⟨none, [("author", .empty)]⟩

/-- Notes as they are, with what is known of the authors. -/
def selectNotes : Select where
  inclusion := some ⟨none, [("author", .empty)]⟩

def ada : Value :=
  .text "\x7b\"id\":7,\"isActive\":1,\"avatar\":null\x7d"

end Blog

/-- Two items of one alias: of an author that is there the result says that there is none. And where
a relation has the name of a column, the result has no place for the column. -/
theorem Select.outputs_taken_for_another :
    (∃ p c, SelectPlan.ofSelect Blog.notebook "notes" Blog.selectWriter = .ok p ∧
      compile Blog.notebook "notes" Blog.selectWriter = .ok c ∧ ¬p.labels.Nodup ∧
      c.mapper.mapRow (p.row [.integer 7] [Blog.ada]) =
        .ok (.obj [("writer", .ofInt64 7), ("author", .null)])) ∧
    ∃ p c, SelectPlan.ofSelect Blog.notebook "notes" Blog.selectNotes = .ok p ∧
      compile Blog.notebook "notes" Blog.selectNotes = .ok c ∧
      "author" ∈ Keyed.keys p.shape ∧ "author" ∈ Keyed.keys p.inclusion.relations ∧
      c.mapper.mapRow (p.row [.integer 1, .integer 7] [.null]) =
        .ok (.obj [("id", .ofInt64 1), ("author", .null)]) :=
  ⟨⟨_, _, rfl, rfl, by decide, rfl⟩, _, _, rfl, rfl, by decide, by decide, rfl⟩

end Tabula
