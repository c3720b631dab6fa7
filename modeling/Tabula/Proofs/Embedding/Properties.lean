import Tabula.Proofs.Embedding.Decode
import Tabula.Proofs.Embedding.Sql
import Tabula.Proofs.Text.Quoted

/-!
# The names of properties

The SQL of an embedding makes an object of each row. It writes the name of a property between two
marks, a column by its key and a relation by its name, and these are the names under which the
members of the object are looked up when it is read. The marks of the name itself are not doubled,
so SQL reads the name as it is only if it has none.
-/

namespace Tabula

/-- A stretch of the SQL of an embedding. -/
inductive Stretch where
  | text (s : String)
  /-- The name of a property between its marks, and the comma behind it. -/
  | property (name : String)

namespace Stretch

def sql : Stretch → String
  | text s => s
  | property name => s!"'{name}', "

/-- The SQL of stretches one after another. -/
def join (stretches : List Stretch) : String :=
  String.join (stretches.map sql)

def name? : Stretch → Option String
  | text _ => none
  | property name => some name

/-- The names of the properties, in order. -/
def names (stretches : List Stretch) : List String :=
  stretches.filterMap name?

section

variable (f g : List Stretch)

@[simp] theorem join_nil : join [] = "" := rfl

@[simp] theorem join_cons (stretch : Stretch) : join (stretch :: f) = stretch.sql ++ join f := by
  simp [join]

@[simp] theorem join_append : join (f ++ g) = join f ++ join g := by
  simp [join]

@[simp] theorem names_nil : names [] = [] := rfl

@[simp] theorem names_text (s : String) : names (text s :: f) = names f := rfl

@[simp] theorem names_property (name : String) : names (property name :: f) = name :: names f := rfl

@[simp] theorem names_append : names (f ++ g) = names f ++ names g :=
  List.filterMap_append

end

end Stretch

namespace Inclusion

mutual

/-- The names by which the members of included rows are known, at any depth: the keys of the columns,
then the name of each relation that is included with them, before the names inside of it. -/
def names (s : Schema) : Inclusion → Relation → Except Error (List String)
  | ⟨_, relations⟩, r => do
    let referenced ← s.tableNamed r.referenced
    return referenced.columns.map Column.key ++ (← namesOf s relations referenced.key)

def namesOf (s : Schema) : List (String × Inclusion) → String → Except Error (List String)
  | [], _ => .ok []
  | (name, inner) :: rest, key => do
    let first ← names s inner (← s.relation key name)
    return name :: first ++ (← namesOf s rest key)

end

end Inclusion

namespace Embedding

/-! ## Stretches of the SQL -/

def columnStretches (e : Embedding) : List (List Stretch) :=
  e.table.columns.map fun c => [.property c.key, .text (c.embedded e.label)]

/-- The stretches of a subquery, given those of what is embedded in its rows. -/
def subqueryStretches (e : Embedding) (nested : List (List Stretch)) : List Stretch :=
  .text (e.opening ++ "json_object(") ::
    ([.text ", "] : List Stretch).intercalate (e.columnStretches ++ nested) ++
    [.text (")" ++ e.closing)]

mutual

/-- The stretches of an embedding. -/
def stretches : Embedding → List Stretch
  | ⟨kind, table, label, parent, pairs, limit, nested⟩ =>
    subqueryStretches ⟨kind, table, label, parent, pairs, limit, nested⟩ (propertyStretches nested)

def propertyStretches : List (String × Embedding) → List (List Stretch)
  | [] => []
  | (name, e) :: rest =>
    (.property name :: .text "json(" :: (e.stretches ++ [.text ")"])) :: propertyStretches rest

end

theorem join_subqueryStretches (e : Embedding) (nested : List (List Stretch)) :
    Stretch.join (e.subqueryStretches nested) = e.opening ++ ("json_object(" ++ ", ".intercalate
      ((e.table.columns.map fun c => s!"'{c.key}', {c.embedded e.label}") ++
        nested.map Stretch.join) ++ ")") ++ e.closing := by
  have hcolumns : e.columnStretches.map Stretch.join =
      e.table.columns.map fun c => s!"'{c.key}', {c.embedded e.label}" := by
    simp [columnStretches, Stretch.sql, Function.comp_def, toString]
  have hobject : Stretch.join (([.text ", "] : List Stretch).intercalate
      (e.columnStretches ++ nested)) = ", ".intercalate
      ((e.table.columns.map fun c => s!"'{c.key}', {c.embedded e.label}") ++
        nested.map Stretch.join) := by
    rw [← hcolumns, ← List.map_append]
    exact join_intercalate Stretch.sql (.text ", ") _
  rw [← hobject]
  simp [subqueryStretches, Stretch.sql, String.append_assoc]

mutual

/-- The stretches make up the SQL of an embedding. -/
theorem join_stretches : (e : Embedding) → Stretch.join e.stretches = e.render.sql
  | ⟨kind, table, label, parent, pairs, limit, nested⟩ => by
    rw [stretches, join_subqueryStretches, join_propertyStretches, render, sql_subquery,
      sql_object]

theorem join_propertyStretches : (es : List (String × Embedding)) →
    (propertyStretches es).map Stretch.join = (properties es).map Fragment.sql
  | [] => rfl
  | (name, e) :: rest => by
    have ih := join_stretches e
    rw [propertyStretches, properties, List.map_cons, List.map_cons, join_propertyStretches rest]
    congr 1
    rw [Fragment.pushRaw, Fragment.sql_append, Fragment.sql_append, ← ih]
    apply String.toList_injective
    simp [Stretch.sql, toString]

end

/-! ## The names -/

theorem names_intercalate (lines : List (List Stretch)) :
    Stretch.names (([.text ", "] : List Stretch).intercalate lines) =
      lines.flatMap Stretch.names := by
  induction lines with
  | nil => rfl
  | cons line lines ih =>
    cases lines with
    | nil => simp
    | cons next lines =>
      rw [List.intercalate_cons_cons, List.flatMap_cons, ← ih]
      simp

theorem names_subqueryStretches (e : Embedding) (nested : List (List Stretch)) :
    Stretch.names (e.subqueryStretches nested) =
      e.table.columns.map Column.key ++ nested.flatMap Stretch.names := by
  have hobject := names_intercalate (e.columnStretches ++ nested)
  have hcolumns : e.columnStretches.flatMap Stretch.names = e.table.columns.map Column.key := by
    simp [columnStretches, List.flatMap_map, ← List.map_eq_flatMap]
  rw [List.flatMap_append, hcolumns] at hobject
  rw [← hobject]
  simp [subqueryStretches]

mutual

/-- The names of the properties are those by which included rows are known. -/
theorem names_of_ofRelation {s : Schema} : {i : Inclusion} → {r : Relation} → {parent : String} →
    {used used' : Nat} → {e : Embedding} → ofRelation s i r parent used = .ok (e, used') →
    i.names s r = .ok (Stretch.names e.stretches)
  | ⟨limit, relations⟩, r, parent, used, used', e, h => by
    obtain ⟨source, referenced, nested, pairs, -, hreferenced, hnested, -, rfl⟩ :=
      ofRelation_eq_ok.1 h
    rw [Inclusion.names, hreferenced, ok_bind, namesOf_of_ofInclusions hnested, ok_bind, stretches,
      names_subqueryStretches, pure_eq_ok]

theorem namesOf_of_ofInclusions {s : Schema} : {relations : List (String × Inclusion)} →
    {key parent : String} → {used used' : Nat} → {es : List (String × Embedding)} →
    ofInclusions s relations key parent used = .ok (es, used') →
    Inclusion.namesOf s relations key = .ok ((propertyStretches es).flatMap Stretch.names)
  | [], _, _, _, _, _, h => by
    obtain ⟨rfl, -⟩ := ofInclusions_nil_eq_ok.1 h
    rfl
  | (name, inner) :: rest, key, parent, used, used', es, h => by
    obtain ⟨r, e, used₁, others, hr, he, hothers, rfl⟩ := ofInclusions_cons_eq_ok.1 h
    rw [Inclusion.namesOf, hr, ok_bind, names_of_ofRelation he, ok_bind,
      namesOf_of_ofInclusions hothers, ok_bind, pure_eq_ok]
    simp [propertyStretches]

end

end Embedding

/-! ## Reading a name -/

theorem Relation.keys_decoders (s : Schema) (relations : List (String × Inclusion)) :
    Keyed.keys (decoders s relations) = Keyed.keys relations := by
  induction relations with
  | nil => rfl
  | cons included rest ih => rw [decoders, Keyed.keys_cons, Keyed.keys_cons, ih]

/-- A member of a row is looked up if it is known as a column or as a relation that is included. -/
theorem Relation.looked_up_iff (s : Schema) {t : Table} {relations : List (String × Inclusion)}
    {key : String} : (t.column? key).isSome ∨ ((decoders s relations).get? key).isSome ↔
      key ∈ t.columns.map Column.key ++ Keyed.keys relations := by
  rw [Table.isSome_column?, Keyed.get?_isSome_iff, keys_decoders, List.mem_append]

/-- What SQL reads of a name between marks, with a comma behind them. -/
theorem unquote_name_eq_some_iff {name behind : String} {value : List Char} :
    Text.unquote '\'' ("'" ++ name ++ "'" ++ (", " ++ behind)).toList =
        some (value, (", " ++ behind).toList) ↔
      name.toList = Text.doubled '\'' value := by
  have hcomma : (", " ++ behind).toList.head? ≠ some '\'' := by simp
  rw [← Text.unquote_marked_eq_some_iff hcomma]
  simp

/-- The SQL of an embedding consists of its stretches, and the names of its properties are those by
which included rows are known: a member of a row is looked up under them and no others. SQL reads
such a name as it is, up to the mark behind it, if and only if there is no mark in it. A name with
marks in it ends where it should only if they are doubled, and then it is read as another one. -/
theorem Embedding.names_read_iff {s : Schema} {i : Inclusion} {r : Relation} {parent : String}
    {used used' : Nat} {e : Embedding} (h : ofRelation s i r parent used = .ok (e, used')) :
    e.render.sql = Stretch.join e.stretches ∧
      i.names s r = .ok (Stretch.names e.stretches) ∧
      (∀ (t : Table) (relations : List (String × Inclusion)) (key : String),
        (t.column? key).isSome ∨ ((Relation.decoders s relations).get? key).isSome ↔
          key ∈ t.columns.map Column.key ++ Keyed.keys relations) ∧
      ∀ before name after behind, e.stretches = before ++ .property name :: after →
        behind = ", " ++ Stretch.join after →
        e.render.sql = Stretch.join before ++ ("'" ++ name ++ "'" ++ behind) ∧
        (Text.unquote '\'' ("'" ++ name ++ "'" ++ behind).toList =
          some (name.toList, behind.toList) ↔ '\'' ∉ name.toList) ∧
        ∀ value, Text.unquote '\'' ("'" ++ name ++ "'" ++ behind).toList =
          some (value, behind.toList) ↔ name.toList = Text.doubled '\'' value := by
  refine ⟨(join_stretches e).symm, names_of_ofRelation h, fun _ _ _ => Relation.looked_up_iff s, ?_⟩
  rintro before name after _ hsplit rfl
  refine ⟨?_, ?_, fun _ => unquote_name_eq_some_iff⟩
  · rw [← join_stretches, hsplit]
    apply String.toList_injective
    simp [Stretch.sql, toString]
  · rw [unquote_name_eq_some_iff, eq_comm, Text.doubled_eq_self_iff]

theorem Embedding.names_read_iff_blog :
    ofRelation Blog.schema Blog.withAuthor Blog.userPosts "app_users" 0 =
        .ok (Blog.embeddedPosts, 2) ∧
      Blog.withAuthor.names Blog.schema Blog.userPosts =
        .ok ["id", "authorId", "createdAt", "author", "id", "isActive", "avatar"] ∧
      ∃ before behind, Blog.embeddedPosts.render.sql = before ++ ("'author'" ++ behind) ∧
        Text.unquote '\'' ("'author'" ++ behind).toList =
          some ("author".toList, behind.toList) := by
  have hplan : ofRelation Blog.schema Blog.withAuthor Blog.userPosts "app_users" 0 =
      .ok (Blog.embeddedPosts, 2) := rfl
  have hsplit : Blog.embeddedPosts.stretches = Blog.embeddedPosts.stretches.take 10 ++
      .property "author" :: Blog.embeddedPosts.stretches.drop 11 := rfl
  obtain ⟨-, hnames, -, hread⟩ := names_read_iff hplan
  obtain ⟨hsql, hname, -⟩ := hread _ _ _ _ hsplit rfl
  exact ⟨hplan, hnames, _, _, hsql, hname.2 (by decide)⟩

namespace Blog

/-- The author of a post goes by a name with a mark in it. -/
def markedDeclarations : Keyed Declaration :=
  [("users", .table users), ("posts", .table posts),
    ("usersRelations", .relations (.ofList "app_users"
      [("posts", { referenced := "posts", link := .many })])),
    ("postsRelations", .relations (.ofList "posts"
      [("post's author", { referenced := "app_users", link := .one ["authorId"] ["id"] })]))]

def marked : Schema :=
  match Schema.assemble markedDeclarations with
  | .ok s => s
  | .error _ => ⟨[], [], []⟩

theorem assemble_marked : Schema.assemble markedDeclarations = .ok marked := by
  rfl

def withMarked : Inclusion :=
  ⟨none, [("post's author", .empty)]⟩

end Blog

/-- The mark in the name of a relation ends the name of the property. -/
theorem Embedding.name_ends_at_mark :
    Schema.assemble Blog.markedDeclarations = .ok Blog.marked ∧
      Blog.withMarked.names Blog.marked Blog.userPosts =
        .ok ["id", "authorId", "createdAt", "post's author", "id", "isActive", "avatar"] ∧
      ∃ e used before after,
        ofRelation Blog.marked Blog.withMarked Blog.userPosts "app_users" 0 = .ok (e, used) ∧
        e.stretches = before ++ .property "post's author" :: after ∧
        Text.unquote '\'' (Stretch.join (.property "post's author" :: after)).toList =
          some ("post".toList, ("s author', " ++ Stretch.join after).toList) := by
  obtain ⟨e, used, he⟩ : ∃ e used, ofRelation Blog.marked Blog.withMarked Blog.userPosts
      "app_users" 0 = .ok (e, used) := ⟨_, _, rfl⟩
  refine ⟨Blog.assemble_marked, rfl, e, used, e.stretches.take 10, e.stretches.drop 11, he, ?_, ?_⟩
  · cases he
    rfl
  · have hbehind : ("s author', " ++ Stretch.join (e.stretches.drop 11)).toList.head? ≠
        some '\'' := by simp
    have hread : Text.unquote '\'' ('\'' :: ("post".toList ++ '\'' ::
        ("s author', " ++ Stretch.join (e.stretches.drop 11)).toList)) =
        some ("post".toList, ("s author', " ++ Stretch.join (e.stretches.drop 11)).toList) :=
      (Text.unquote_marked_eq_some_iff hbehind).2 rfl
    rw [← hread]
    simp [Stretch.sql, toString]

end Tabula
