import Tabula.Result.Embedded
import Tabula.Proofs.Embedding.Requests
import Tabula.Proofs.Embedding.Stored

/-!
# Reading what an embedding has found

An inclusion that resolves has an embedding, and whatever rows the embedding finds in the store,
their JSON is read back as the rows themselves are: with every value as its column decodes it.
-/

namespace Tabula

variable {s : Schema}

/-! ## Reading back -/

namespace Relation

theorem get?_decoders {name : String} {inner : Inclusion} :
    (relations : List (String × Inclusion)) → (Keyed.keys relations).Nodup →
    (name, inner) ∈ relations → (decoders s relations).get? name = some (decode s inner)
  | [], _, hmem => by cases hmem
  | (key, i) :: rest, hnodup, hmem => by
    obtain ⟨hkey, hrest⟩ := List.nodup_cons.1 hnodup
    rw [decoders, Keyed.get?]
    rcases List.mem_cons.1 hmem with heq | hmem
    · cases heq
      rw [if_pos rfl]
    · have hname : name ∈ Keyed.keys rest := List.mem_map_of_mem (f := Prod.fst) hmem
      have hne : key ≠ name := fun heq => hkey (heq ▸ hname)
      rw [if_neg hne]
      exact get?_decoders rest hrest hmem

section Members

variable {t : Table} {inner : Decoders} {name : String}

/-- One member of an included row. -/
def decodeMember (s : Schema) (table : Table) (inner : Decoders) (member : String × Json) :
    Except Error (String × Json) := do
  match table.column? member.1 with
  | some c => return (member.1, ← c.decodeEmbedded member.2)
  | none =>
    match inner.get? member.1 with
    | some decode => return (member.1, ← decode (← s.relation table.key member.1) member.2)
    | none => return member

theorem decodeMembers_eq (members : List (String × Json)) :
    decodeMembers s t inner members = members.mapM (decodeMember s t inner) :=
  rfl

theorem decodeMember_column {c : Column} (hc : c ∈ t.columns) (j : Json) :
    decodeMember s t inner (c.key, j) =
      (fun decoded => (c.key, decoded)) <$> c.decodeEmbedded j := by
  rw [decodeMember, Table.column?_key hc]
  dsimp only
  cases c.decodeEmbedded j with
  | error e => rfl
  | ok decoded => rfl

theorem decodeMember_relation {i : Inclusion} {r : Relation} (hcolumn : t.column? name = none)
    (hinner : inner.get? name = some (decode s i)) (hr : s.relation t.key name = .ok r) (j : Json) :
    decodeMember s t inner (name, j) = (fun decoded => (name, decoded)) <$> decode s i r j := by
  rw [decodeMember, hcolumn]
  dsimp only
  rw [hinner]
  dsimp only
  rw [hr, ok_bind]
  cases decode s i r j with
  | error e => rfl
  | ok decoded => rfl

/-- The members of columns are decoded as the columns decode what is stored. -/
theorem decodeMembers_columns {cells : List (Column × Value)}
    (hcolumns : ∀ cell ∈ cells, cell.1 ∈ t.columns)
    (hvalues : ∀ cell ∈ cells, cell.1.Embeddable cell.2) :
    decodeMembers s t inner (cells.map fun cell => (cell.1.key, cell.1.embed cell.2)) =
      StoredRow.columns Column.decode cells := by
  rw [decodeMembers_eq, StoredRow.columns, List.mapM_map]
  refine mapM_congr fun cell hcell => ?_
  rw [Function.comp_apply, decodeMember_column (hcolumns cell hcell),
    Column.decodeEmbedded_embed (hvalues cell hcell)]

end Members

section Rows

variable {r : Relation} {t : Table} {inner : Decoders}

theorem decodeRows_null (ht : s.tableNamed r.referenced = .ok t) (hkind : r.kind = .one) :
    decodeRows s inner r .null = .ok .null := by
  simp [decodeRows, payload, ht, hkind]

theorem decodeRows_obj (ht : s.tableNamed r.referenced = .ok t) (hkind : r.kind = .one)
    (members : List (String × Json)) :
    decodeRows s inner r (.obj members) = .obj <$> decodeMembers s t inner members := by
  simp only [decodeRows, payload, ok_bind, ht, hkind]
  rfl

theorem decodeRows_arr (ht : s.tableNamed r.referenced = .ok t) (hkind : r.kind = .many)
    (rows : List (List (String × Json))) :
    decodeRows s inner r (.arr (rows.map .obj)) =
      (fun all => .arr (all.map .obj)) <$> rows.mapM (decodeMembers s t inner) := by
  simp only [decodeRows, payload, ok_bind, ht, hkind, List.mapM_map]
  change (do
    return Json.arr (← rows.mapM fun members => Json.obj <$> decodeMembers s t inner members) :
    Except Error Json) = _
  rw [mapM_map_right]
  cases rows.mapM (decodeMembers s t inner) with
  | error e => rfl
  | ok all => rfl

end Rows

/-! The induction is on the stored rows. The inclusion is taken apart along with them, as far as the
embedding that was planned for it is. -/

mutual

/-- The JSON of what an embedding finds is read back value by value. -/
theorem decode_toJson : (stored : Stored) → {i : Inclusion} → {r : Relation} →
    {e : Embedding} → {parent : String} → {used used' : Nat} →
    Embedding.ofRelation s i r parent used = .ok (e, used') → i.Distinct →
    i.Resolves s e.table → stored.Fits e →
    decode s i r (stored.toJson Column.embed) = stored.traverse Column.decode
  | .absent, ⟨limit, relations⟩, r, e, parent, used, used', he, _, _, hfits => by
    obtain ⟨source, t, nested, pairs, -, ht, -, -, rfl⟩ := Embedding.ofRelation_eq_ok.1 he
    exact decodeRows_null ht hfits
  | .one row, ⟨limit, relations⟩, r, e, parent, used, used', he, hd, hi, hfits => by
    obtain ⟨source, t, nested, pairs, -, ht, hnested, -, rfl⟩ := Embedding.ofRelation_eq_ok.1 he
    obtain ⟨hkind, hrow⟩ := hfits
    have hmembers := decodeMembers_row row hnested hd hi hrow
    rw [Stored.toJson, Stored.traverse, ← hmembers]
    exact decodeRows_obj ht hkind _
  | .many rows, ⟨limit, relations⟩, r, e, parent, used, used', he, hd, hi, hfits => by
    obtain ⟨source, t, nested, pairs, -, ht, hnested, -, rfl⟩ := Embedding.ofRelation_eq_ok.1 he
    obtain ⟨hkind, hrows⟩ := hfits
    have hall := decodeMembers_rows rows hnested hd hi hrows
    rw [Stored.toJson, Stored.traverse, ← hall]
    exact decodeRows_arr ht hkind _

theorem decodeMembers_row : (row : StoredRow) → {relations : List (String × Inclusion)} →
    {limit : Option Int64} → {e : Embedding} → {label : String} → {used used' : Nat} →
    Embedding.ofInclusions s relations e.table.key label used = .ok (e.nested, used') →
    Inclusion.Distinct ⟨limit, relations⟩ → Inclusion.ResolvesAll s relations e.table →
    row.Fits e →
    decodeMembers s e.table (decoders s relations) (row.members Column.embed) =
      row.traverse Column.decode
  | .mk cells inner, relations, limit, e, label, used, used', hnested, hd, hi, hfits => by
    obtain ⟨hcells, hvalues, hinner⟩ := hfits
    obtain ⟨hnodup, hall⟩ := hd
    have hcolumns : ∀ cell ∈ cells, cell.1 ∈ e.table.columns := by
      intro cell hcell
      rw [← hcells]
      exact List.mem_map_of_mem hcell
    have hdecoders : ∀ entry ∈ relations,
        (decoders s relations).get? entry.1 = some (decode s entry.2) :=
      fun entry hentry => get?_decoders relations hnodup hentry
    have hproperties := decodeMembers_properties inner hnested hdecoders hall hi hinner
    rw [StoredRow.members, decodeMembers_eq, List.mapM_append, ← decodeMembers_eq,
      ← decodeMembers_eq, decodeMembers_columns hcolumns hvalues, hproperties]
    rfl

theorem decodeMembers_rows : (rows : List StoredRow) → {relations : List (String × Inclusion)} →
    {limit : Option Int64} → {e : Embedding} → {label : String} → {used used' : Nat} →
    Embedding.ofInclusions s relations e.table.key label used = .ok (e.nested, used') →
    Inclusion.Distinct ⟨limit, relations⟩ → Inclusion.ResolvesAll s relations e.table →
    StoredRow.AllFit rows e →
    (StoredRow.allMembers Column.embed rows).mapM
        (decodeMembers s e.table (decoders s relations)) =
      StoredRow.traverseAll Column.decode rows
  | [], relations, limit, e, label, used, used', _, _, _, _ => rfl
  | row :: rows, relations, limit, e, label, used, used', hnested, hd, hi, ⟨hrow, hrows⟩ => by
    rw [StoredRow.allMembers, List.mapM_cons, decodeMembers_row row hnested hd hi hrow,
      decodeMembers_rows rows hnested hd hi hrows, StoredRow.traverseAll]

theorem decodeMembers_properties : (inner : List (String × Stored)) → {t : Table} →
    {decoders : Decoders} → {relations : List (String × Inclusion)} →
    {es : List (String × Embedding)} → {label : String} → {used used' : Nat} →
    Embedding.ofInclusions s relations t.key label used = .ok (es, used') →
    (∀ entry ∈ relations, decoders.get? entry.1 = some (decode s entry.2)) →
    Inclusion.DistinctAll relations → Inclusion.ResolvesAll s relations t →
    Stored.InnerFit inner es →
    decodeMembers s t decoders (Stored.properties Column.embed inner) =
      Stored.traverseInner Column.decode inner
  | [], t, decoders, relations, es, label, used, used', _, _, _, _, _ => rfl
  | (name', stored) :: rest, t, decoders, [], es, label, used, used', hnested, _, _, _, hfits => by
    obtain ⟨rfl, -⟩ := Embedding.ofInclusions_nil_eq_ok.1 hnested
    exact hfits.elim
  | (name', stored) :: rest, t, decoders, (name, i) :: relations, es, label, used, used', hnested,
      hdecoders, ⟨hd, hds⟩, ⟨hcolumn, ⟨r, referenced, hr, hreferenced, hi⟩, his⟩, hfits => by
    obtain ⟨r', e, used₁, others, hr', he, hothers, rfl⟩ :=
      Embedding.ofInclusions_cons_eq_ok.1 hnested
    obtain ⟨rfl, hstored, hrest⟩ := hfits
    obtain ⟨hdecoder, hdecoders⟩ := List.forall_mem_cons.1 hdecoders
    have hr' : r' = r := Except.ok.inj (hr'.symm.trans hr)
    subst hr'
    have htable : referenced = e.table :=
      Except.ok.inj (hreferenced.symm.trans (Embedding.tableNamed_of_ofRelation he))
    subst htable
    have ih := decode_toJson stored he hd hi hstored
    have ihs := decodeMembers_properties rest hothers hdecoders hds his hrest
    rw [Stored.properties, Stored.traverseInner, decodeMembers_eq, List.mapM_cons,
      ← decodeMembers_eq, ihs, decodeMember_relation hcolumn hdecoder hr, ih]
    cases stored.traverse Column.decode with
    | error error => rfl
    | ok j => rfl

end

/-- A text is read as the JSON that it is the text of, unless that is a text again. -/
theorem decode_parsed {i : Inclusion} {r : Relation} {j : Json} {text : String}
    (h : Json.parse text = some j) (hj : payload j = .ok j) :
    decode s i r (.str text) = decode s i r j := by
  cases i with
  | mk limit relations => rw [decode, decodeRows, decodeRows, hj, payload, h]

theorem decode_str {i : Inclusion} {r : Relation} {stored : Stored} {f : Column → Value → Json}
    {text : String} (h : Json.parse text = some (stored.toJson f)) :
    decode s i r (.str text) = decode s i r (stored.toJson f) :=
  decode_parsed h (by cases stored <;> rfl)

/-- There is an embedding for an inclusion that resolves, and what it finds is read back value by
value, from its JSON or from a text of it. -/
theorem exists_decode_eq_traverse {ds : Keyed Declaration} (hs : Schema.assemble ds = .ok s)
    {r : Relation} (hr : s.Has r) {t : Table} (ht : s.tableNamed r.referenced = .ok t)
    {i : Inclusion} (hd : i.Distinct) (hi : i.Resolves s t) (parent : String) (used : Nat) :
    ∃ e used', Embedding.ofRelation s i r parent used = .ok (e, used') ∧
      ∀ stored : Stored, stored.Fits e → ∀ j : Json,
        (j = stored.toJson Column.embed ∨
          ∃ text, j = .str text ∧ Json.parse text = some (stored.toJson Column.embed)) →
        decode s i r j = stored.traverse Column.decode := by
  obtain ⟨source, referenced, hleads⟩ := hr.leads hs
  cases hleads.referenced_found.symm.trans ht
  obtain ⟨e, used', he⟩ := Embedding.exists_ofRelation_of_resolves hs hleads hi parent used
  cases ht.symm.trans (Embedding.tableNamed_of_ofRelation he)
  refine ⟨e, used', he, ?_⟩
  intro stored hfits j hj
  have hread := decode_toJson stored he hd hi hfits
  rcases hj with rfl | ⟨text, rfl, hparse⟩
  · exact hread
  · rw [decode_str hparse, hread]

/-- Included rows read as stored rows do. For every relation of an assembled schema and every
inclusion that resolves there is an embedding, and what the embedding may find is read back from
its JSON, or from a text of it, if and only if every value can be decoded by its column; and then
it is the same but for the values, which are decoded. -/
theorem decode_of_embedded {ds : Keyed Declaration} (hs : Schema.assemble ds = .ok s)
    {g : Relations} (hg : g ∈ s.relations) {name : String} {r : Relation}
    (hr : (name, r) ∈ g.fields) {t : Table} (ht : s.tableNamed r.referenced = .ok t)
    {i : Inclusion} (hd : i.Distinct) (hi : i.Resolves s t) (parent : String) (used : Nat) :
    ∃ e used', Embedding.ofRelation s i r parent used = .ok (e, used') ∧
      ∀ stored : Stored, stored.Fits e → ∀ j : Json,
        (j = stored.toJson Column.embed ∨
          ∃ text, j = .str text ∧ Json.parse text = some (stored.toJson Column.embed)) →
        ((∃ decoded, decode s i r j = .ok decoded) ↔
          ∀ cell ∈ stored.cells, ∃ decoded, cell.1.decode cell.2 = .ok decoded) ∧
        ∀ decoded, decode s i r j = .ok decoded →
          ∃ f : Column → Value → Json,
            (∀ cell ∈ stored.cells, cell.1.decode cell.2 = .ok (f cell.1 cell.2)) ∧
            decoded = stored.toJson f := by
  obtain ⟨e, used', he, hread⟩ :=
    exists_decode_eq_traverse hs ⟨g, hg, name, hr⟩ ht hd hi parent used
  refine ⟨e, used', he, ?_⟩
  intro stored hfits j hj
  rw [hread stored hfits j hj]
  constructor
  · exact Stored.exists_traverse
  · intro decoded hdecoded
    exact Stored.eq_of_traverse hdecoded

/-- An inclusion that is read from JSON has only to resolve: the text of what its embedding finds is
read back value by value. -/
theorem decode_of_ofJson {ds : Keyed Declaration} (hs : Schema.assemble ds = .ok s)
    {r : Relation} (hr : s.Has r) {t : Table} (ht : s.tableNamed r.referenced = .ok t)
    {asked : Json} {i : Inclusion} (hasked : Inclusion.ofJson asked = .ok i) (hi : i.Resolves s t)
    (parent : String) (used : Nat) :
    ∃ e used', Embedding.ofRelation s i r parent used = .ok (e, used') ∧
      ∀ (stored : Stored) (text : String), stored.Fits e →
        Json.parse text = some (stored.toJson Column.embed) →
        decode s i r (.str text) = stored.traverse Column.decode := by
  obtain ⟨e, used', he, hread⟩ :=
    exists_decode_eq_traverse hs hr ht (Inclusion.distinct_ofJson hasked) hi parent used
  refine ⟨e, used', he, ?_⟩
  intro stored text hfits hparse
  exact hread stored hfits _ (.inr ⟨text, rfl, hparse⟩)

end Relation

namespace Blog

/-- The posts of a user are read each with its author. -/
def withAuthor : Inclusion :=
  ⟨none, [("author", .empty)]⟩

def embeddedPosts : Embedding :=
  ⟨.many, posts.withKey "posts", "r1", "app_users",
    [({ name := "author_id", key := "authorId", kind := .integer },
      { name := "id", key := "id", kind := .integer, primaryKey := true })], none,
    [("author", ⟨.one, users.withKey "users", "r2", "r1",
      [({ name := "id", key := "id", kind := .integer, primaryKey := true },
        { name := "author_id", key := "authorId", kind := .integer })], none, []⟩)]⟩

/-- A post with its author, and one without. -/
def storedPosts : Stored :=
  .many [
    .mk (posts.columns.zip [.integer 1, .integer 7, .integer 0])
      [("author", .one (.mk (users.columns.zip [.integer 7, .integer 1, .blob [0xAB, 0x0C]]) []))],
    .mk (posts.columns.zip [.integer 2, .null, .null]) [("author", .absent)]]

def payload : String :=
  "[\x7b\"id\":1,\"authorId\":7,\"createdAt\":0,\"author\":\x7b\"id\":7,\"isActive\":1," ++
    "\"avatar\":\"AB0C\"\x7d\x7d,\x7b\"id\":2,\"authorId\":null,\"createdAt\":null," ++
    "\"author\":null\x7d]"

theorem fits_storedPosts : storedPosts.Fits embeddedPosts := by
  refine ⟨rfl, ⟨rfl, ?_, ⟨rfl, ⟨rfl, rfl, ?_, trivial⟩, trivial⟩⟩, ⟨rfl, ?_, ⟨rfl, rfl, trivial⟩⟩,
    trivial⟩
  · simp [posts, Column.Embeddable]
  · simp [users, Column.Embeddable]
  · simp [posts, Column.Embeddable]

end Blog

theorem Relation.decode_of_embedded_blog :
    ∃ decoded, decode Blog.schema Blog.withAuthor Blog.userPosts (.str Blog.payload) = .ok decoded ∧
      ∃ f : Column → Value → Json,
        (∀ cell ∈ Blog.storedPosts.cells, cell.1.decode cell.2 = .ok (f cell.1 cell.2)) ∧
        decoded = Blog.storedPosts.toJson f := by
  have hparse : Json.parse Blog.payload = some (Blog.storedPosts.toJson Column.embed) := by
    decide +kernel
  have hdistinct : Blog.withAuthor.Distinct :=
    ⟨by decide, Inclusion.distinct_empty, trivial⟩
  have hresolves : Blog.withAuthor.Resolves Blog.schema (Blog.posts.withKey "posts") :=
    ⟨by decide, ⟨⟨.one, "posts", "app_users", ["authorId"], ["id"], none⟩,
      Blog.users.withKey "users", rfl, rfl, trivial⟩, trivial⟩
  obtain ⟨e, used', he, hread⟩ := decode_of_embedded Blog.assemble_declarations
    (g := ⟨"app_users", [("posts", Blog.userPosts)]⟩) (by decide) (List.mem_singleton_self _)
    (t := Blog.posts.withKey "posts") rfl hdistinct hresolves "app_users" 0
  have hembedded : Except.ok (Blog.embeddedPosts, 2) = Except.ok (e, used') := he
  cases hembedded
  obtain ⟨hsucceeds, hdecoded⟩ := hread Blog.storedPosts Blog.fits_storedPosts _
    (.inr ⟨Blog.payload, rfl, hparse⟩)
  have hisOk : ∀ cell ∈ Blog.storedPosts.cells, (cell.1.decode cell.2).isOk = true := by
    decide +kernel
  have hvalues : ∀ cell ∈ Blog.storedPosts.cells,
      ∃ decoded, cell.1.decode cell.2 = .ok decoded := by
    intro cell hcell
    have hcellOk := hisOk cell hcell
    cases hdecode : cell.1.decode cell.2 with
    | error error =>
      rw [hdecode] at hcellOk
      cases hcellOk
    | ok decoded => exact ⟨decoded, rfl⟩
  obtain ⟨decoded, hok⟩ := hsucceeds.2 hvalues
  exact ⟨decoded, hok, hdecoded decoded hok⟩

end Tabula
