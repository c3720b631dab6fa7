import Tabula.Statement.Inclusion
import Tabula.Statement.Shape
import Tabula.Proofs.Column.Embedded
import Tabula.Proofs.Filter.Leaves
import Tabula.Proofs.Inclusion

/-!
# Descriptors spelled in JSON

What can be built as a filter, a shape or an inclusion can be spelled in JSON, and is read back as
what it was. Objects are put together member by member, so none of them has a key twice. What is
left out is what JSON takes for something else: fields that are called like groups, shapes that
look like expressions and relations that are called like the limit beside them.
-/

namespace Tabula

/-! ## Filters -/

def Connective.key : Connective → String
  | and => "$and"
  | or => "$or"

theorem Connective.ofKey?_key (c : Connective) : ofKey? c.key = some c := by
  cases c <;> rfl

theorem Connective.ofKey?_eq_none {key : String} :
    ofKey? key = none ↔ key ≠ "$and" ∧ key ≠ "$or" := by
  unfold ofKey?
  split <;> simp_all

/-- A spelling of each operator. -/
structure Operator.Spelling where
  key : Operator → String
  ofKey?_key : ∀ operator, Operator.ofKey? (key operator) = some operator

/-- The field is not called like a group, and a set is given as an array. -/
structure Leaf.Spelled (l : Leaf) : Prop where
  and : l.field ≠ "$and"
  or : l.field ≠ "$or"
  array : l.operator.isSet = true → l.operand.isArray = true

namespace Filter

variable (spelling : Operator.Spelling)

mutual

/-- A group is an object with an array for its one member, a leaf an object of one field with its
operator. -/
def toJson : Filter → Json
  | .group c children => .obj [(c.key, .arr (toItems children))]
  | .compare field operator operand => .obj [(field, .obj [(spelling.key operator, operand)])]

def toItems : List Filter → List Json
  | [] => []
  | f :: rest => f.toJson :: toItems rest

end

theorem comparisons_spelled {field : String} {operator : Operator} {operand : Json}
    (harray : operator.isSet = true → operand.isArray = true) :
    comparisons field [(spelling.key operator, operand)] =
      .ok [.compare field operator operand] := by
  have hgiven : ¬(operator.isSet && !operand.isArray) = true := by
    cases hset : operator.isSet with
    | false => simp
    | true => simp [harray hset]
  rw [comparisons, List.mapM_cons]
  dsimp only
  rw [spelling.ofKey?_key]
  dsimp only
  rw [if_neg hgiven]
  rfl

mutual

theorem ofJson_toJson : (f : Filter) → (∀ l ∈ f.leaves, l.Spelled) →
    ofJson (f.toJson spelling) = .ok f
  | .group c children, h => by
    have hitems := ofItems_toItems children h
    simp [toJson, ofJson, ofMembers, ofMember, Connective.ofKey?_key, hitems, conjunction]
  | .compare field operator operand, h => by
    have hleaf := h ⟨field, operator, operand⟩ (List.mem_singleton_self _)
    have hfield := Connective.ofKey?_eq_none.2 ⟨hleaf.and, hleaf.or⟩
    simp [toJson, ofJson, ofMembers, ofMember, hfield, comparisons_spelled spelling hleaf.array,
      conjunction]

theorem ofItems_toItems : (fs : List Filter) → (∀ l ∈ leavesOf fs, l.Spelled) →
    ofItems (toItems spelling fs) = .ok fs
  | [], _ => rfl
  | f :: rest, h => by
    obtain ⟨hf, hrest⟩ := List.forall_mem_append.1 h
    simp [toItems, ofItems, ofJson_toJson f hf, ofItems_toItems rest hrest]

end

end Filter

/-! ## Shapes -/

theorem Keyed.putAll_nil {α : Type} {m : Keyed α} (h : m.keys.Nodup) : putAll [] m = m :=
  putAll_of_fresh (m := []) h (by simp)

namespace ShapeNode

mutual

/-- A condition on the shapes inside of a node. -/
def Inside (P : Shape → Prop) : ShapeNode → Prop
  | .nested entries => P entries ∧ InsideAll P entries
  | .field _ => True
  | .raw _ => True

def InsideAll (P : Shape → Prop) : List (String × ShapeNode) → Prop
  | [] => True
  | (_, n) :: rest => n.Inside P ∧ InsideAll P rest

end

mutual

/-- A field is its key, an expression an object with the one member `$raw`. -/
def toJson : ShapeNode → Json
  | .field key => .str key
  | .raw expression => .obj [("$raw", .str expression)]
  | .nested entries => .obj (Keyed.putAll [] (toMembers entries))

def toMembers : List (String × ShapeNode) → List (String × Json)
  | [] => []
  | (key, n) :: rest => (key, n.toJson) :: toMembers rest

end

theorem keys_toMembers (entries : List (String × ShapeNode)) :
    Keyed.keys (toMembers entries) = Keyed.keys entries := by
  induction entries with
  | nil => rfl
  | cons e entries ih => rw [toMembers, Keyed.keys_cons, Keyed.keys_cons, ih]

theorem insideAll_put {P : Shape → Prop} {key : String} {n : ShapeNode} (hn : n.Inside P) :
    (entries : List (String × ShapeNode)) → InsideAll P entries →
    InsideAll P (Keyed.put key n entries)
  | [], _ => ⟨hn, trivial⟩
  | (k, m) :: rest, ⟨hm, hrest⟩ => by
    rw [Keyed.put]
    split
    · exact ⟨hn, hrest⟩
    · exact ⟨hm, insideAll_put hn rest hrest⟩

end ShapeNode

namespace Shape

/-- Shapes that are built, an entry put under its key after the other. -/
inductive Built : Shape → Prop
  | new : Built []
  | field {m : Shape} (h : Built m) (key field : String) : Built (Keyed.put key (.field field) m)
  | raw {m : Shape} (h : Built m) (key expression : String) :
    Built (Keyed.put key (.raw expression) m)
  | nested {m inner : Shape} (h : Built m) (key : String) (hinner : Built inner) :
    Built (Keyed.put key (.nested inner) m)

/-- No shape inside of another one has the key `$raw`. -/
def Spelled (m : Shape) : Prop :=
  ShapeNode.InsideAll (fun inner => "$raw" ∉ Keyed.keys inner) m

def toJson (m : Shape) : Json :=
  .obj (Keyed.putAll [] (ShapeNode.toMembers m))

/-- No key is there twice, on no level. -/
def Distinct (m : Shape) : Prop :=
  (Keyed.keys m).Nodup ∧ ShapeNode.InsideAll (fun inner => (Keyed.keys inner).Nodup) m

theorem Distinct.put {m : Shape} (h : m.Distinct) (key : String) {n : ShapeNode}
    (hn : n.Inside fun inner => (Keyed.keys inner).Nodup) : Distinct (Keyed.put key n m) :=
  ⟨Keyed.nodup_keys_put h.1 key n, ShapeNode.insideAll_put hn m h.2⟩

theorem Built.distinct {m : Shape} (h : m.Built) : m.Distinct := by
  induction h with
  | new => exact ⟨List.nodup_nil, trivial⟩
  | field _ key field ih => exact ih.put key (n := .field field) trivial
  | raw _ key expression ih => exact ih.put key (n := .raw expression) trivial
  | @nested _ inner _ key _ ih ihinner => exact ih.put key (n := .nested inner) ihinner

mutual

theorem nodeOfJson_toJson (key : String) : (n : ShapeNode) →
    n.Inside (fun inner => (Keyed.keys inner).Nodup) →
    n.Inside (fun inner => "$raw" ∉ Keyed.keys inner) → nodeOfJson key n.toJson = .ok n
  | .field _, _, _ => rfl
  | .raw _, _, _ => rfl
  | .nested entries, ⟨hkeys, hdistinct⟩, ⟨hraw, hspelled⟩ => by
    have hmembers := Keyed.putAll_nil (m := ShapeNode.toMembers entries)
      (by rwa [ShapeNode.keys_toMembers])
    have hget : Keyed.get? (ShapeNode.toMembers entries) "$raw" = none :=
      Keyed.get?_eq_none_iff.2 (by rwa [ShapeNode.keys_toMembers])
    rw [ShapeNode.toJson, hmembers, nodeOfJson, hget]
    dsimp only
    rw [entriesOfMembers_toMembers entries hdistinct hspelled, map_ok, Keyed.putAll_nil hkeys]

theorem entriesOfMembers_toMembers : (entries : List (String × ShapeNode)) →
    ShapeNode.InsideAll (fun inner => (Keyed.keys inner).Nodup) entries →
    ShapeNode.InsideAll (fun inner => "$raw" ∉ Keyed.keys inner) entries →
    entriesOfMembers (ShapeNode.toMembers entries) = .ok entries
  | [], _, _ => rfl
  | (key, n) :: rest, ⟨hn, hdistinct⟩, ⟨hraw, hspelled⟩ => by
    rw [ShapeNode.toMembers, entriesOfMembers, nodeOfJson_toJson key n hn hraw, ok_bind,
      entriesOfMembers_toMembers rest hdistinct hspelled, ok_bind, pure_eq_ok]

end

theorem ofJson_toJson {m : Shape} (hbuilt : m.Built) (h : m.Spelled) : ofJson m.toJson = .ok m := by
  obtain ⟨hkeys, hdistinct⟩ := hbuilt.distinct
  rw [toJson, Keyed.putAll_nil (by rwa [ShapeNode.keys_toMembers]), ofJson,
    entriesOfMembers_toMembers m hdistinct h, map_ok, Keyed.putAll_nil hkeys]

end Shape

/-! ## Inclusions -/

namespace Inclusion

/-- Inclusions that are built, by relations and limits one after another. -/
inductive Built : Inclusion → Prop
  | new : Built empty
  | including {i inner : Inclusion} (h : Built i) (relation : String) (hinner : Built inner) :
    Built (i.including relation inner)
  | withLimit {i : Inclusion} (h : Built i) (limit : Int64) : Built (i.withLimit limit)

theorem Built.distinct {i : Inclusion} (h : i.Built) : i.Distinct := by
  induction h with
  | new => exact distinct_empty
  | including _ _ _ ih ihinner => exact distinct_including ih ihinner
  | withLimit _ _ ih => exact distinct_withLimit ih

mutual

/-- No relation is called like a limit beside it. -/
def Spelled : Inclusion → Prop
  | ⟨limit, relations⟩ =>
    (limit = none ∨ "limit" ∉ Keyed.keys relations) ∧ SpelledAll relations

def SpelledAll : List (String × Inclusion) → Prop
  | [] => True
  | (_, inner) :: rest => inner.Spelled ∧ SpelledAll rest

end

variable (short : Bool)

def limitMember : Option Int64 → List (String × Json)
  | none => []
  | some limit => [("limit", .ofInt64 limit)]

/-- What stands under the key of a relation; nothing included may be spelled `true` for short. -/
def entryOf (members : List (String × Json)) : Json :=
  if short && members.isEmpty then .bool true else .obj members

mutual

/-- The members of the object of an inclusion: the limit, if there is one, and the relations. -/
def toMembers : Inclusion → List (String × Json)
  | ⟨limit, relations⟩ => Keyed.putAll [] (limitMember limit ++ membersOf relations)

def membersOf : List (String × Inclusion) → List (String × Json)
  | [] => []
  | (name, inner) :: rest => (name, entryOf short inner.toMembers) :: membersOf rest

end

def toJson (i : Inclusion) : Json :=
  .obj (i.toMembers short)

theorem keys_membersOf (relations : List (String × Inclusion)) :
    Keyed.keys (membersOf short relations) = Keyed.keys relations := by
  induction relations with
  | nil => rfl
  | cons e relations ih => rw [membersOf, Keyed.keys_cons, Keyed.keys_cons, ih]

theorem toMembers_eq {limit : Option Int64} {relations : List (String × Inclusion)}
    (hkeys : (Keyed.keys relations).Nodup)
    (hlimit : limit = none ∨ "limit" ∉ Keyed.keys relations) :
    (Inclusion.mk limit relations).toMembers short =
      limitMember limit ++ membersOf short relations := by
  refine Keyed.putAll_nil ?_
  rw [Keyed.keys_append, keys_membersOf]
  cases limit with
  | none => exact hkeys
  | some n => exact List.nodup_cons.2 ⟨hlimit.resolve_left (by simp), hkeys⟩

theorem addMembers_limitMember (limit : Option Int64) (members : List (String × Json)) :
    addMembers empty (limitMember limit ++ members) = addMembers ⟨limit, []⟩ members := by
  cases limit with
  | none => rfl
  | some n =>
    simp [limitMember, addMembers, addMember, Json.ofInt64, Json.Number.int64?_ofInt64, withLimit,
      empty]

theorem addMember_entryOf {inner : Inclusion} {members : List (String × Json)}
    (h : addMembers empty members = .ok inner) (i : Inclusion) (name : String) :
    addMember i name (entryOf short members) = .ok (i.including name inner) := by
  rw [entryOf]
  split
  · rename_i hshort
    obtain rfl : members = [] := by simp_all
    cases h
    rfl
  · rw [addMember, h, ok_bind, pure_eq_ok]

mutual

theorem addMembers_toMembers : (i : Inclusion) → i.Distinct → i.Spelled →
    addMembers empty (i.toMembers short) = .ok i
  | ⟨limit, relations⟩, ⟨hkeys, hdistinct⟩, ⟨hlimit, hspelled⟩ => by
    rw [toMembers_eq short hkeys hlimit, addMembers_limitMember,
      addMembers_membersOf relations hdistinct hspelled, Keyed.putAll_nil hkeys]

theorem addMembers_membersOf : (relations : List (String × Inclusion)) → DistinctAll relations →
    SpelledAll relations → {i : Inclusion} →
    addMembers i (membersOf short relations) =
      .ok ⟨i.limit, Keyed.putAll i.relations relations⟩
  | [], _, _, i => by
    cases i
    rfl
  | (name, inner) :: rest, ⟨hdistinct, hdistinctAll⟩, ⟨hspelled, hspelledAll⟩, i => by
    have hinner := addMembers_toMembers inner hdistinct hspelled
    rw [membersOf, addMembers, addMember_entryOf short hinner, ok_bind,
      addMembers_membersOf rest hdistinctAll hspelledAll]
    rfl

end

theorem ofJson_toJson {i : Inclusion} (hbuilt : i.Built) (h : i.Spelled) :
    ofJson (i.toJson short) = .ok i :=
  addMembers_toMembers short i hbuilt.distinct h

end Inclusion

/-! ## Whatever can be spelled -/

/-- What is given as a filter, a shape or an inclusion can as well be given in JSON, in any spelling
of the operators and of relations with nothing in them: groups and leaves, entries, limits and
relations are read back as they were, in their order. -/
theorem Descriptor.ofJson_spelled :
    (∀ (spelling : Operator.Spelling) (f : Filter), (∀ l ∈ f.leaves, l.Spelled) →
      Filter.ofJson (f.toJson spelling) = .ok f) ∧
    (∀ m : Shape, m.Built → m.Spelled → Shape.ofJson m.toJson = .ok m) ∧
    ∀ (short : Bool) (i : Inclusion), i.Built → i.Spelled →
      Inclusion.ofJson (i.toJson short) = .ok i :=
  ⟨Filter.ofJson_toJson, fun _ => Shape.ofJson_toJson, fun short _ => Inclusion.ofJson_toJson short⟩

/-- The words and symbols that come first to mind. -/
def Operator.usual : Spelling where
  key
    | eq => "=="
    | ne => "!="
    | lt => "<"
    | gt => ">"
    | le => "<="
    | ge => ">="
    | like => "$like"
    | isIn => "$in"
    | notIn => "$nin"
  ofKey?_key operator := by cases operator <;> rfl

namespace Blog

/-- Groups of one filter and of none. -/
def nestedGroups : Filter :=
  .group .or [.group .and [.compare "authorId" .isIn (.arr [.ofInt64 7, .null])],
    .group .or [], .group .and [.group .and []]]

/-- A shape with the key `$raw`, in which there is another shape. -/
def rawShape : Shape :=
  [("$raw", .field "posts.id"), ("author", .nested [("name", .field "a.name"),
    ("posts", .raw "count(*)")])]

/-- A limit beside one relation, and a relation called like it beside none. -/
def limited : Inclusion :=
  ⟨some 5, [("posts", ⟨none, [("limit", .empty)]⟩), ("notes", .empty)]⟩

end Blog

theorem Descriptor.ofJson_spelled_blog :
    Filter.ofJson (Blog.nestedGroups.toJson Operator.usual) = .ok Blog.nestedGroups ∧
      Shape.ofJson (Shape.toJson Blog.rawShape) = .ok Blog.rawShape ∧
      Blog.limited.toJson true = .obj [("limit", .ofInt64 5),
        ("posts", .obj [("limit", .bool true)]), ("notes", .bool true)] ∧
      Inclusion.ofJson (Blog.limited.toJson true) = .ok Blog.limited := by
  obtain ⟨hfilter, hshape, hinclusion⟩ := ofJson_spelled
  have hbuilt : Shape.Built Blog.rawShape :=
    (Shape.Built.new.field "$raw" "posts.id").nested "author"
      ((Shape.Built.new.field "name" "a.name").raw "posts" "count(*)")
  have hlimited : Blog.limited.Built :=
    ((Inclusion.Built.new.withLimit 5).including "posts" (.including .new "limit" .new)).including
      "notes" .new
  refine ⟨hfilter _ _ ?_, hshape _ hbuilt ?_, rfl, hinclusion true _ hlimited ?_⟩
  · intro l hl
    obtain rfl : l = ⟨"authorId", .isIn, .arr [.ofInt64 7, .null]⟩ := List.mem_singleton.1 hl
    exact ⟨by decide, by decide, fun _ => rfl⟩
  · exact ⟨trivial, ⟨by decide, trivial, trivial, trivial⟩, trivial⟩
  · exact ⟨.inr (by decide), ⟨.inl rfl, ⟨.inl rfl, trivial⟩, trivial⟩, ⟨.inl rfl, trivial⟩, trivial⟩

end Tabula
