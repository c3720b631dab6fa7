import Tabula.Proofs.Embedding.Decode
import Tabula.Proofs.Schema.Merge
import Tabula.Proofs.Select.Aliases

/-!
# Included relations and columns of one name

Nothing keeps the name of a relation apart from the keys of the columns. In the JSON of a row an
included relation takes the place of a column of its name, being the later of the two. What reads
the row inside of another asks the column first, and so hands included rows to a column; what reads
the row of a select asks the relation.
-/

namespace Tabula

/-! ## What becomes of stored rows -/

/-- What a column makes of included rows: some kinds take them for a text, the others leave them. -/
def Column.kept (c : Column) (rows : Json) : Json :=
  match c.kind, rows with
  | .boolean, .null | .date, .null => .null
  | .boolean, rows | .date, rows => .str rows.text
  | _, rows => rows

mutual

/-- The rows as the JSON that their text is read as: of two members of one name the last counts, in
the place of the first. -/
def Stored.payload : Stored → Json
  | .absent => .null
  | .one row => .obj row.object
  | .many rows => .arr ((StoredRow.objects rows).map .obj)

def StoredRow.object : StoredRow → List (String × Json)
  | .mk cells inner =>
    Keyed.putAll [] (cells.map (fun cell => (cell.1.key, cell.1.embed cell.2)) ++
      Stored.payloads inner)

def StoredRow.objects : List StoredRow → List (List (String × Json))
  | [] => []
  | row :: rows => row.object :: StoredRow.objects rows

def Stored.payloads : List (String × Stored) → List (String × Json)
  | [] => []
  | (name, stored) :: rest => (name, stored.payload) :: Stored.payloads rest

end

/-- A column is decoded, unless included rows of its name have taken its place: they are left to the
column. -/
def StoredRow.readCell (inner : List (String × Json)) (cell : Column × Value) :
    Except Error (String × Json) :=
  match Keyed.get? inner cell.1.key with
  | some rows => .ok (cell.1.key, cell.1.kept rows)
  | none => (fun j => (cell.1.key, j)) <$> cell.1.decode cell.2

mutual

/-- The rows as a caller gets them. -/
def Stored.read : Stored → Except Error Json
  | .absent => .ok .null
  | .one row => .obj <$> row.read
  | .many rows => (fun all => .arr (all.map .obj)) <$> StoredRow.readAll rows

def StoredRow.read : StoredRow → Except Error (List (String × Json))
  | .mk cells inner => do
    let columns ← cells.mapM (StoredRow.readCell (Stored.payloads inner))
    return columns ++ (← Stored.readBeside (cells.map fun cell => cell.1.key) inner)

def StoredRow.readAll : List StoredRow → Except Error (List (List (String × Json)))
  | [] => .ok []
  | row :: rows => do
    let members ← row.read
    return members :: (← StoredRow.readAll rows)

/-- The included rows whose names are none of the keys. -/
def Stored.readBeside (keys : List String) :
    List (String × Stored) → Except Error (List (String × Json))
  | [] => .ok []
  | (name, stored) :: rest =>
    if name ∈ keys then Stored.readBeside keys rest
    else do
      let j ← stored.read
      return (name, j) :: (← Stored.readBeside keys rest)

end

/-! ## Members that take the place of others -/

namespace Keyed

theorem get?_filter {α : Type} (n : Keyed α) (p : String → Bool) (key : String) :
    get? (n.filter fun e => p e.1) key = if p key then n.get? key else none := by
  induction n with
  | nil => simp [get?]
  | cons e n ih =>
    obtain ⟨k, a⟩ := e
    by_cases hk : k = key
    · subst hk
      cases hp : p k with
      | true => simp [hp, get?]
      | false => simp [hp, ih]
    · cases hp : p k with
      | true => simp [hp, get?, hk, ih]
      | false => simp [hp, get?, hk, ih]

/-- Laid over others, entries stand in the places of those that have their keys, or behind them. -/
theorem putAll_eq_append {α : Type} {m n : Keyed α} (hm : m.keys.Nodup) (hn : n.keys.Nodup) :
    m.putAll n = m.map (fun e => (e.1, (n.get? e.1).getD e.2)) ++
      n.filter fun e => e.1 ∉ m.keys := by
  have hlast : ∀ key, n.get? key = n.last? key := fun key => (get?_reverse hn key).symm
  refine eq_of_get? (nodup_keys_putAll hm n) ?_ fun key => ?_
  · rw [keys_putAll hn, keys_append]
    simp only [keys, List.map_map, List.filter_map, Function.comp_def]
  · simp only [get?_putAll hn, get?_append, hlast, get?_map_last?,
      get?_filter n fun key => decide (key ∉ m.keys)]
    cases hm : m.get? key with
    | some b => cases n.last? key <;> rfl
    | none => simp [get?_eq_none_iff.1 hm]

end Keyed

theorem Column.decodeEmbedded_kept (c : Column) (stored : Stored) :
    c.decodeEmbedded stored.payload = .ok (c.kept stored.payload) := by
  obtain ⟨name, key, kind⟩ := c
  cases stored <;> cases kind <;> rfl

namespace Stored

theorem payloads_eq_map (inner : List (String × Stored)) :
    payloads inner = inner.map fun e => (e.1, e.2.payload) := by
  induction inner with
  | nil => rfl
  | cons e inner ih => rw [payloads, ih, List.map_cons]

theorem keys_payloads (inner : List (String × Stored)) :
    Keyed.keys (payloads inner) = inner.map Prod.fst := by
  rw [payloads_eq_map, Keyed.keys, List.map_map]
  rfl

theorem exists_payload {inner : List (String × Stored)} {key : String} {rows : Json}
    (h : Keyed.get? (payloads inner) key = some rows) :
    ∃ stored : Stored, rows = stored.payload := by
  have hmem := Keyed.mem_of_get? h
  rw [payloads_eq_map] at hmem
  obtain ⟨e, -, he⟩ := List.mem_map.1 hmem
  cases he
  exact ⟨e.2, rfl⟩

/-- Rows are found under the names of the embeddings. -/
theorem names_of_innerFit : {inner : List (String × Stored)} → {es : List (String × Embedding)} →
    InnerFit inner es → inner.map Prod.fst = es.map Prod.fst
  | [], [], _ => rfl
  | (name, stored) :: rest, (name', e) :: es, ⟨hname, _, hrest⟩ => by
    rw [List.map_cons, List.map_cons, names_of_innerFit hrest]
    exact congrArg (· :: es.map Prod.fst) hname

end Stored

/-- The members of a row: first those with the keys of columns, then the other included rows. -/
theorem StoredRow.object_eq {cells : List (Column × Value)} {inner : List (String × Stored)}
    (hcells : (cells.map fun cell => cell.1.key).Nodup) (hinner : (inner.map Prod.fst).Nodup) :
    (mk cells inner).object =
      cells.map (fun cell => (cell.1.key,
        (Keyed.get? (Stored.payloads inner) cell.1.key).getD (cell.1.embed cell.2))) ++
      (Stored.payloads inner).filter fun m => m.1 ∉ cells.map fun cell => cell.1.key := by
  have hkeys : Keyed.keys (cells.map fun cell => (cell.1.key, cell.1.embed cell.2)) =
      cells.map fun cell => cell.1.key := by
    rw [Keyed.keys, List.map_map]
    rfl
  rw [object, ← Keyed.putAll_putAll, Keyed.putAll_of_fresh (m := []) (hkeys ▸ hcells)
      fun _ _ => List.not_mem_nil, List.nil_append, Keyed.putAll_eq_append (hkeys ▸ hcells)
      (Stored.keys_payloads inner ▸ hinner), hkeys, List.map_map]
  rfl

/-! ## Reading inside of rows -/

namespace Relation

variable {s : Schema}

/-- In the place of a column stands its value, or included rows of its name. -/
theorem decodeMembers_cells {t : Table} {decoders : Decoders} {inner : List (String × Stored)}
    {cells : List (Column × Value)} (hcolumns : ∀ cell ∈ cells, cell.1 ∈ t.columns)
    (hvalues : ∀ cell ∈ cells, cell.1.Embeddable cell.2) :
    decodeMembers s t decoders (cells.map fun cell => (cell.1.key,
        (Keyed.get? (Stored.payloads inner) cell.1.key).getD (cell.1.embed cell.2))) =
      cells.mapM (StoredRow.readCell (Stored.payloads inner)) := by
  rw [decodeMembers_eq, List.mapM_map]
  refine mapM_congr fun cell hcell => ?_
  rw [Function.comp_apply, decodeMember_column (hcolumns cell hcell), StoredRow.readCell]
  cases hget : Keyed.get? (Stored.payloads inner) cell.1.key with
  | none => rw [Option.getD_none, Column.decodeEmbedded_embed (hvalues cell hcell)]
  | some rows =>
    obtain ⟨stored, rfl⟩ := Stored.exists_payload hget
    rw [Option.getD_some, Column.decodeEmbedded_kept, map_ok]

/-! The induction is on the stored rows, as where names do not meet. That a row has been planned for
says all that is needed of the relations in it. -/

mutual

/-- Included rows are read as a caller gets them. -/
theorem decode_payload : (stored : Stored) → {i : Inclusion} → {r : Relation} →
    {e : Embedding} → {parent : String} → {used used' : Nat} →
    Embedding.ofRelation s i r parent used = .ok (e, used') → i.Distinct → stored.Fits e →
    decode s i r stored.payload = stored.read
  | .absent, ⟨limit, relations⟩, r, e, parent, used, used', he, _, hfits => by
    obtain ⟨source, t, nested, pairs, -, ht, -, -, rfl⟩ := Embedding.ofRelation_eq_ok.1 he
    exact decodeRows_null ht hfits
  | .one row, ⟨limit, relations⟩, r, e, parent, used, used', he, hd, hfits => by
    obtain ⟨source, t, nested, pairs, -, ht, hnested, -, rfl⟩ := Embedding.ofRelation_eq_ok.1 he
    obtain ⟨hkind, hrow⟩ := hfits
    have hmembers := decodeMembers_object row hnested hd hrow
    rw [Stored.payload, Stored.read, ← hmembers]
    exact decodeRows_obj ht hkind _
  | .many rows, ⟨limit, relations⟩, r, e, parent, used, used', he, hd, hfits => by
    obtain ⟨source, t, nested, pairs, -, ht, hnested, -, rfl⟩ := Embedding.ofRelation_eq_ok.1 he
    obtain ⟨hkind, hrows⟩ := hfits
    have hall := decodeMembers_objects rows hnested hd hrows
    rw [Stored.payload, Stored.read, ← hall]
    exact decodeRows_arr ht hkind _

theorem decodeMembers_object : (row : StoredRow) → {relations : List (String × Inclusion)} →
    {limit : Option Int64} → {e : Embedding} → {label : String} → {used used' : Nat} →
    Embedding.ofInclusions s relations e.table.key label used = .ok (e.nested, used') →
    Inclusion.Distinct ⟨limit, relations⟩ → row.Fits e →
    decodeMembers s e.table (decoders s relations) row.object = row.read
  | .mk cells inner, relations, limit, e, label, used, used', hnested, ⟨hnodup, hall⟩,
      ⟨hcells, hvalues, hinner⟩ => by
    have hkeys : (cells.map fun cell => cell.1.key) = e.table.columns.map Column.key := by
      rw [← hcells, List.map_map]
      rfl
    have hcolumns : ∀ cell ∈ cells, cell.1 ∈ e.table.columns := by
      intro cell hcell
      rw [← hcells]
      exact List.mem_map_of_mem hcell
    have hnames : (inner.map Prod.fst).Nodup := by
      rw [Stored.names_of_innerFit hinner, Embedding.names_of_ofInclusions hnested]
      exact hnodup
    have hdecoders : ∀ entry ∈ relations,
        (decoders s relations).get? entry.1 = some (decode s entry.2) :=
      fun entry hentry => get?_decoders relations hnodup hentry
    have hbeside := decodeMembers_beside inner hnested hdecoders hall hinner
    rw [StoredRow.object_eq (hkeys ▸ e.table.keys_nodup) hnames, StoredRow.read, decodeMembers_eq,
      List.mapM_append, ← decodeMembers_eq, ← decodeMembers_eq, hkeys, hbeside,
      decodeMembers_cells hcolumns hvalues]

theorem decodeMembers_objects : (rows : List StoredRow) → {relations : List (String × Inclusion)} →
    {limit : Option Int64} → {e : Embedding} → {label : String} → {used used' : Nat} →
    Embedding.ofInclusions s relations e.table.key label used = .ok (e.nested, used') →
    Inclusion.Distinct ⟨limit, relations⟩ → StoredRow.AllFit rows e →
    (StoredRow.objects rows).mapM (decodeMembers s e.table (decoders s relations)) =
      StoredRow.readAll rows
  | [], relations, limit, e, label, used, used', _, _, _ => rfl
  | row :: rows, relations, limit, e, label, used, used', hnested, hd, ⟨hrow, hrows⟩ => by
    rw [StoredRow.objects, List.mapM_cons, decodeMembers_object row hnested hd hrow,
      decodeMembers_objects rows hnested hd hrows, StoredRow.readAll]

theorem decodeMembers_beside : (inner : List (String × Stored)) → {t : Table} →
    {decoders : Decoders} → {relations : List (String × Inclusion)} →
    {es : List (String × Embedding)} → {label : String} → {used used' : Nat} →
    Embedding.ofInclusions s relations t.key label used = .ok (es, used') →
    (∀ entry ∈ relations, decoders.get? entry.1 = some (decode s entry.2)) →
    Inclusion.DistinctAll relations → Stored.InnerFit inner es →
    decodeMembers s t decoders
        ((Stored.payloads inner).filter fun m => m.1 ∉ t.columns.map Column.key) =
      Stored.readBeside (t.columns.map Column.key) inner
  | [], t, decoders, relations, es, label, used, used', _, _, _, _ => rfl
  | (name', stored) :: rest, t, decoders, [], es, label, used, used', hnested, _, _, hfits => by
    obtain ⟨rfl, -⟩ := Embedding.ofInclusions_nil_eq_ok.1 hnested
    exact hfits.elim
  | (name', stored) :: rest, t, decoders, (name, i) :: relations, es, label, used, used', hnested,
      hdecoders, ⟨hd, hds⟩, hfits => by
    obtain ⟨r, e, used₁, others, hr, he, hothers, rfl⟩ :=
      Embedding.ofInclusions_cons_eq_ok.1 hnested
    obtain ⟨rfl, hstored, hrest⟩ := hfits
    obtain ⟨hdecoder, hdecoders⟩ := List.forall_mem_cons.1 hdecoders
    have ihs := decodeMembers_beside rest hothers hdecoders hds hrest
    rw [Stored.payloads, Stored.readBeside]
    by_cases hkey : name' ∈ t.columns.map Column.key
    · rw [List.filter_cons_of_neg (by simpa using hkey), ihs, if_pos hkey]
    · have ih := decode_payload stored he hd hstored
      rw [List.filter_cons_of_pos (by simpa using hkey), if_neg hkey, decodeMembers_eq,
        List.mapM_cons, ← decodeMembers_eq, ihs,
        decodeMember_relation (Table.column?_eq_none.2 hkey) hdecoder hr, ih]
      cases stored.read with
      | error error => rfl
      | ok j => rfl

end

/-- What a row of a table makes of a member that goes by the name of a relation included in it: a
column of that name decodes it if there is one, and else the relation does. -/
inductive ReadsMember (s : Schema) (t : Table) (included : String × Inclusion) (j decoded : Json) :
    Prop
  | column {c : Column} (hc : t.column? included.1 = some c)
    (hdecoded : c.decodeEmbedded j = .ok decoded) : ReadsMember s t included j decoded
  | relation {r : Relation} (hc : t.column? included.1 = none)
    (hr : s.relation t.key included.1 = .ok r)
    (hdecoded : decode s included.2 r j = .ok decoded) : ReadsMember s t included j decoded

theorem readsMember_of_decodeMembers {t : Table} {relations : List (String × Inclusion)}
    (hnodup : (Keyed.keys relations).Nodup) {members decoded : List (String × Json)}
    (h : decodeMembers s t (decoders s relations) members = .ok decoded)
    {included : String × Inclusion} (hincluded : included ∈ relations) {j : Json}
    (hj : (included.1, j) ∈ members) :
    ∃ x, (included.1, x) ∈ decoded ∧ ReadsMember s t included j x := by
  rw [decodeMembers_eq, mapM_eq_ok] at h
  obtain ⟨m, hm, hmember⟩ := exists_of_forall₂ h hj
  unfold decodeMember at hmember
  dsimp only at hmember
  split at hmember
  · rename_i c hc
    obtain ⟨x, hx, hmember⟩ := bind_eq_ok.1 hmember
    cases hmember
    exact ⟨x, hm, .column hc hx⟩
  · rename_i hc
    rw [get?_decoders relations hnodup hincluded] at hmember
    obtain ⟨r, hr, hmember⟩ := bind_eq_ok.1 hmember
    obtain ⟨x, hx, hmember⟩ := bind_eq_ok.1 hmember
    cases hmember
    exact ⟨x, hm, .relation hc hr hx⟩

/-- Inside of included rows a relation that has been asked for reads the member of its name if the
table has no column of that name; a column that there is reads it instead. So included rows come out
as they are read with the columns first at every level but the topmost: there the result of a select
has the rows under the name of the relation, whatever the columns of the table are called. -/
theorem decode_of_namesakes {ds : Keyed Declaration} (hs : Schema.assemble ds = .ok s) {t : Table}
    (ht : t ∈ s.tables) {name : String} {r : Relation} (hr : s.relation t.key name = .ok r)
    {u : Table} (hu : s.tableNamed r.referenced = .ok u) {i : Inclusion} (hd : i.Distinct)
    (hi : ∀ q ∈ i.requests ds u, Declarations.Declares ds q) (parent : String) (used : Nat) :
    (∀ members decoded, decodeMembers s u (decoders s i.relations) members = .ok decoded →
      ∀ included ∈ i.relations, ∀ j, (included.1, j) ∈ members →
        ∃ x, (included.1, x) ∈ decoded ∧ ReadsMember s u included j x) ∧
    ∃ e used', Embedding.ofRelation s i r parent used = .ok (e, used') ∧
      ∀ stored : Stored, stored.Fits e → ∀ j : Json,
        (j = stored.payload ∨ ∃ text, j = .str text ∧ Json.parse text = some stored.payload) →
        decode s i r j = stored.read ∧
        ∀ (m : SelectMapper) (row : Row) (result : Json), m.schema = s → m.table = t.key →
          (name, i) ∈ m.inclusion.relations → (Keyed.keys m.inclusion.relations).Nodup →
          ((row.get? name).getD .null).toJson = j → m.mapRow row = .ok result →
          ∃ members x, result = .obj members ∧ stored.read = .ok x ∧
            Keyed.get? members name = some x := by
  obtain ⟨u', hleads⟩ := Schema.exists_leads hs ht hr
  cases hleads.referenced_found.symm.trans hu
  refine ⟨?_, ?_⟩
  · intro members decoded hdecoded included hincluded j hj
    cases i with
    | mk limit relations => exact readsMember_of_decodeMembers hd.1 hdecoded hincluded hj
  obtain ⟨e, used', he⟩ := (Embedding.exists_ofRelation_iff hs hleads parent used).2 hi
  refine ⟨e, used', he, fun stored hfits j hj => ?_⟩
  have hread : decode s i r j = stored.read := by
    rcases hj with rfl | ⟨text, rfl, hparse⟩
    · exact decode_payload stored he hd hfits
    · rw [decode_parsed hparse (by cases stored <;> rfl), decode_payload stored he hd hfits]
  refine ⟨hread, fun m row result hschema htable hincluded hnames hrow hresult => ?_⟩
  obtain ⟨members, rfl, hrelations⟩ := SelectMapper.get?_included hnames hresult
  obtain ⟨x, hx, hget⟩ := hrelations (name, i) hincluded
  refine ⟨members, x, rfl, ?_, hget⟩
  rw [SelectMapper.included, hschema, htable, hr, ok_bind, hrow, hread] at hx
  exact hx

end Relation

namespace Blog

/-- Users with their notes, where the author of a note goes by the same name as a column. -/
def diaryDeclarations : Keyed Declaration :=
  [("users", .table users), ("notes", .table notes),
    ("usersRelations", .relations (.ofList "app_users"
      [("notes", { referenced := "notes", link := .many })])),
    ("notesRelations", .relations (.ofList "notes"
      [("author", { referenced := "app_users", link := .one ["author"] ["id"] })]))]

def diary : Schema :=
  match Schema.assemble diaryDeclarations with
  | .ok s => s
  | .error _ => ⟨[], [], []⟩

theorem assemble_diary : Schema.assemble diaryDeclarations = .ok diary := by
  rfl

def userNotes : Relation :=
  ⟨.many, "app_users", "notes", ["id"], ["author"], none⟩

def embeddedNotes : Embedding :=
  ⟨.many, notes.withKey "notes", "r1", "app_users",
    [({ name := "author_id", key := "author", kind := .integer },
      { name := "id", key := "id", kind := .integer, primaryKey := true })], none,
    [("author", ⟨.one, users.withKey "users", "r2", "r1",
      [({ name := "id", key := "id", kind := .integer, primaryKey := true },
        { name := "author_id", key := "author", kind := .integer })], none, []⟩)]⟩

/-- A note with its author. -/
def storedNotes : Stored :=
  .many [.mk (notes.columns.zip [.integer 1, .integer 7])
    [("author", .one (.mk (users.columns.zip [.integer 7, .integer 1, .null]) []))]]

def notesPayload : String :=
  "[\x7b\"id\":1,\"author\":7,\"author\":\x7b\"id\":7,\"isActive\":1,\"avatar\":null\x7d\x7d]"

theorem fits_storedNotes : storedNotes.Fits embeddedNotes := by
  refine ⟨rfl, ⟨rfl, ?_, ⟨rfl, ⟨rfl, rfl, ?_, trivial⟩, trivial⟩⟩, trivial⟩
  · simp [notes, Column.Embeddable]
  · simp [users, Column.Embeddable]

/-- Users with their notes and the authors of these. -/
def diaryMapper : SelectMapper where
  schema := diary
  table := "users"
  fields := .forSelect (users.withKey "users")
  shape := [("id", .field "id")]
  inclusion := ⟨none, [("notes", withAuthor)]⟩

def diaryRow : Row :=
  ⟨[("id", .integer 7), ("notes", .text notesPayload)]⟩

end Blog

theorem Relation.decode_of_namesakes_diary :
    Json.parse Blog.notesPayload = some Blog.storedNotes.payload ∧
      decode Blog.diary Blog.withAuthor Blog.userNotes (.str Blog.notesPayload) =
        Blog.storedNotes.read ∧
      ∃ members x, Blog.diaryMapper.mapRow Blog.diaryRow = .ok (.obj members) ∧
        Blog.storedNotes.read = .ok x ∧ Keyed.get? members "notes" = some x := by
  have hparse : Json.parse Blog.notesPayload = some Blog.storedNotes.payload := by
    decide +kernel
  have hdistinct : Blog.withAuthor.Distinct := ⟨by decide, Inclusion.distinct_empty, trivial⟩
  have hr : Blog.diary.relation (Blog.users.withKey "users").key "notes" = .ok Blog.userNotes := rfl
  obtain ⟨-, e, used', he, hread⟩ := decode_of_namesakes Blog.assemble_diary (by decide) hr
    (u := Blog.notes.withKey "notes") rfl hdistinct (by decide) "app_users" 0
  have hembedded : Except.ok (Blog.embeddedNotes, 2) = Except.ok (e, used') := he
  cases hembedded
  obtain ⟨hdecode, hselect⟩ := hread Blog.storedNotes Blog.fits_storedNotes _
    (.inr ⟨Blog.notesPayload, rfl, hparse⟩)
  obtain ⟨result, hresult⟩ : ∃ result, Blog.diaryMapper.mapRow Blog.diaryRow = .ok result :=
    ⟨.obj [("id", .ofInt64 7), ("notes", .arr [.obj [("id", .ofInt64 1), ("author", .obj
      [("id", .ofInt64 7), ("isActive", .ofInt64 1), ("avatar", .null)])]])], by decide +kernel⟩
  obtain ⟨members, x, rfl, hx, hget⟩ := hselect Blog.diaryMapper Blog.diaryRow result rfl rfl
    (List.mem_singleton_self _) (by decide) rfl hresult
  exact ⟨hparse, hdecode, members, x, hresult, hx, hget⟩

/-- Inside of the notes of a user the activity of their author stays a number, for the column leaves
the rows as they are; beside a note that has been selected it is a truth value. -/
theorem Relation.left_to_namesake :
    decode Blog.diary Blog.withAuthor Blog.userNotes (.str Blog.notesPayload) =
        .ok (.arr [.obj [("id", .ofInt64 1), ("author", .obj [("id", .ofInt64 7),
          ("isActive", .ofInt64 1), ("avatar", .null)])]]) ∧
      ∃ p c, SelectPlan.ofSelect Blog.diary "notes" Blog.selectNotes = .ok p ∧
        Select.compile Blog.diary "notes" Blog.selectNotes = .ok c ∧
        c.mapper.mapRow (p.row [.integer 1, .integer 7] [Blog.ada]) =
          .ok (.obj [("id", .ofInt64 1), ("author", .obj [("id", .ofInt64 7),
            ("isActive", .bool true), ("avatar", .null)])]) :=
  ⟨by decide +kernel, _, _, rfl, rfl, by decide +kernel⟩

end Tabula
