import Tabula.Proofs.Scope.Embeddings
import Tabula.Proofs.Select.Mapping

/-!
# Which tables the names in a select denote

A select has names from three sources: its table has that of the store, joins have labels, and
included relations are numbered. Labels differ among themselves and numbers do. Nothing keeps the
name of the table apart from either, and where it is the same as one of them, names denote another
table than is meant, or none.
-/

namespace Tabula

/-! ## Fields -/

/-- Each field that is known belongs to a table of the from-clause and is read under its name. -/
theorem SelectScope.entries_of_joins {s : Schema} {t : Table} {joins : List Join}
    {scope : SelectScope} (h : joins.foldlM (join s) (ofTable t) = .ok scope) :
    ∀ x ∈ scope.fields.entries, ∃ e ∈ tables t scope.joins, ∃ c ∈ e.table.columns,
      x = (s!"{e.owner}.{c.key}", ⟨s!"{e.source.name}.{c.name}", c⟩) := by
  refine joins_induction (P := fun _ scope => ∀ x ∈ scope.fields.entries,
    ∃ e ∈ tables t scope.joins, ∃ c ∈ e.table.columns,
      x = (s!"{e.owner}.{c.key}", ⟨s!"{e.source.name}.{c.name}", c⟩)) ?_ ?_ h
  · intro x hx
    obtain ⟨c, hc, rfl⟩ := List.mem_map.1 hx
    exact ⟨_, List.mem_cons_self, c, hc, rfl⟩
  · intro before scope j scope' hscope hjoin x hx
    obtain ⟨u, condition, column, field, -, -, -, -, -, -, rfl⟩ := join_eq_ok.1 hjoin
    rcases List.mem_append.1 hx with hx | hx
    · obtain ⟨c, hc, rfl⟩ := List.mem_map.1 hx
      refine ⟨⟨j.label, ⟨Text.identifier j.label, .join scope.joins.length⟩, u⟩, ?_, c, hc, rfl⟩
      simp [tables, joined, List.zipIdx_append]
    · obtain ⟨e, he, hentry⟩ := hscope x hx
      refine ⟨e, ?_, hentry⟩
      rw [tables, joined, List.zipIdx_append, List.map_append, ← List.cons_append]
      exact List.mem_append_left _ he

theorem SelectPlan.map_read_sources {p : SelectPlan} {α : Type} (read : String → α) :
    (p.tables.map FromTable.source).map (fun source => read source.name) = p.names.map read := by
  rw [names, List.map_map, List.map_map]
  rfl

/-- Under names that all differ a field is referred to as the column that it is. -/
theorem SelectPlan.fieldPart_eq {p : SelectPlan} {α : Type} {read : String → α}
    (hnodup : (p.names.map read).Nodup) {e : FromTable} (he : e ∈ p.tables) {c : Column}
    (hc : c ∈ e.table.columns) :
    p.fieldPart ⟨s!"{e.source.name}.{c.name}", c⟩ = e.source.column c := by
  unfold fieldPart
  split
  · rename_i e' hfind
    have he' := List.mem_of_find?_eq_some hfind
    have hreads := List.find?_some hfind
    simp only [decide_eq_true_eq] at hreads
    have hname : e.source.name = e'.source.name :=
      String.append_left_inj _ |>.1 (String.append_left_inj _ |>.1 hreads.2)
    rw [names, List.map_map] at hnodup
    have hsame : e' = e := List.inj_on_of_nodup_map hnodup he' he (congrArg read hname.symm)
    rw [hsame]
  · rename_i hfind
    have hnone := List.find?_eq_none.1 hfind e he
    simp [hc] at hnone

section

variable {α : Type} [DecidableEq α] {read : String → α} {scopes : List (List Source)}
  {part : Field → Part}

/-! ## Conditions -/

theorem Condition.sources_toSql (hpart : ∀ f, (part f).source? = none) (c : Condition) :
    (c.toSql part).sources = [] := by
  unfold toSql
  cases c.test <;> simp [Sql.sources, List.filterMap_cons, hpart]

theorem Condition.captured_toSql (hpart : ∀ f, (part f).Captured read scopes) (c : Condition) :
    (c.toSql part).Captured read scopes := by
  unfold toSql
  cases c.test <;> simp [Sql.Captured, hpart]

namespace Predicate

mutual

theorem sources_toSqlWithin (hpart : ∀ f, (part f).source? = none) (nested : Bool) :
    (p : Predicate) → (p.toSqlWithin part nested).sources = []
  | .group c children => by
    have hparts := List.flatMap_eq_nil_iff.2 (sources_toSqlParts hpart children)
    simp only [toSqlWithin]
    split <;> simpa using hparts
  | .test condition => condition.sources_toSql hpart

theorem sources_toSqlParts (hpart : ∀ f, (part f).source? = none) : (ps : List Predicate) →
    ∀ f ∈ toSqlParts part ps, f.sources = []
  | [] => by simp [toSqlParts]
  | p :: rest => by
    have hp := sources_toSqlWithin hpart true p
    have hrest := sources_toSqlParts hpart rest
    simp only [toSqlParts]
    split
    · exact hrest
    · exact List.forall_mem_cons.2 ⟨hp, hrest⟩

end

mutual

theorem captured_toSqlWithin (hpart : ∀ f, (part f).Captured read scopes) (nested : Bool) :
    (p : Predicate) → (p.toSqlWithin part nested).Captured read scopes
  | .group c children => by
    have hparts := captured_toSqlParts hpart children
    simp only [toSqlWithin]
    split <;> simpa using hparts
  | .test condition => condition.captured_toSql hpart

theorem captured_toSqlParts (hpart : ∀ f, (part f).Captured read scopes) : (ps : List Predicate) →
    ∀ f ∈ toSqlParts part ps, f.Captured read scopes
  | [] => by simp [toSqlParts]
  | p :: rest => by
    have hp := captured_toSqlWithin hpart true p
    have hrest := captured_toSqlParts hpart rest
    simp only [toSqlParts]
    split
    · exact hrest
    · exact List.forall_mem_cons.2 ⟨hp, hrest⟩

end

end Predicate

namespace Sql

theorem sources_appendCondition (hpart : ∀ f, (part f).source? = none) (f : Sql) (keyword : String)
    (p : Option Predicate) : (f.appendCondition keyword part p).sources = f.sources := by
  cases p with
  | none => rfl
  | some p =>
    simp only [appendCondition]
    split
    · rfl
    · simp [p.sources_toSqlWithin hpart]

theorem captured_appendCondition {f : Sql} {keyword : String} {p : Option Predicate} :
    (f.appendCondition keyword part p).Captured read scopes ↔
      f.Captured read scopes ∧ ∀ q ∈ p, (q.toSqlWithin part false).Captured read scopes := by
  cases p with
  | none => simp [appendCondition]
  | some p =>
    simp only [appendCondition]
    split
    · rename_i hempty
      simp [captured_of_isEmpty hempty]
    · simp

end Sql

/-! ## From-clauses -/

namespace SelectPlan

variable {p : SelectPlan}

theorem source?_fieldPart (f : Field) : (p.fieldPart f).source? = none := by
  unfold fieldPart
  split <;> rfl

theorem source?_itemPart (i : SelectItem) : (p.itemPart i).source? = none := by
  unfold itemPart
  split
  · split
    · exact source?_fieldPart _
    · rfl
  · rfl

theorem sources_joinSql (j : JoinPlan) (index : Nat) :
    (p.joinSql j index).sources = [⟨Text.identifier j.label, .join index⟩] := by
  simp [joinSql, Sql.sources, List.filterMap_cons, source?_fieldPart]

theorem sources_foldl_joinSql (joins : List (JoinPlan × Nat)) (f : Sql) :
    (joins.foldl (fun f j => f.append (p.joinSql j.1 j.2)) f).sources =
      f.sources ++ joins.map fun j => ⟨Text.identifier j.1.label, .join j.2⟩ := by
  induction joins generalizing f with
  | nil => simp
  | cons j joins ih => simp [ih, sources_joinSql]

theorem captured_foldl_joinSql {joins : List (JoinPlan × Nat)} {f : Sql} :
    (joins.foldl (fun f j => f.append (p.joinSql j.1 j.2)) f).Captured read scopes ↔
      f.Captured read scopes ∧ ∀ j ∈ joins, (p.joinSql j.1 j.2).Captured read scopes := by
  induction joins generalizing f with
  | nil => simp
  | cons j joins ih => simp [ih, and_assoc]

theorem sources_projectionSql : p.projectionSql.sources = [] := by
  rw [projectionSql, Sql.sources_join, List.flatMap_eq_nil_iff]
  intro f hf
  rcases List.mem_append.1 hf with hf | hf
  · obtain ⟨i, -, rfl⟩ := List.mem_map.1 hf
    simp [itemSql, Sql.sources, List.filterMap_cons, source?_itemPart]
  · obtain ⟨e, -, rfl⟩ := List.mem_map.1 hf
    simp [Embedding.sources_toSql]

theorem sources_clauses : p.clauses.sources = p.tables.map FromTable.source := by
  have hjoins := sources_foldl_joinSql (p := p) p.scope.joins.zipIdx
  simp [clauses, Sql.sources_appendCondition source?_fieldPart, hjoins, sources_projectionSql,
    Sql.sources, tables, SelectScope.tables]

theorem captured_projectionSql :
    p.projectionSql.Captured read scopes ↔
      (∀ i ∈ p.items, (p.itemPart i).Captured read scopes) ∧
      ∀ e ∈ p.embeddings.zipIdx, (e.1.2.toSql [e.2] .base).Captured read scopes := by
  rw [projectionSql, Sql.captured_join, List.forall_mem_append, List.forall_mem_map,
    List.forall_mem_map]
  simp [itemSql, Sql.Captured]

theorem captured_clauses :
    p.clauses.Captured read scopes ↔
      p.projectionSql.Captured read scopes ∧
      (∀ j ∈ p.scope.joins.zipIdx, (p.joinSql j.1 j.2).Captured read scopes) ∧
      (∀ q ∈ p.filter, (q.toSqlWithin p.fieldPart false).Captured read scopes) ∧
      ∀ q ∈ p.having, (q.toSqlWithin p.fieldPart false).Captured read scopes := by
  simp [clauses, Sql.captured_appendCondition, captured_foldl_joinSql, Sql.Captured, and_assoc]

theorem captured_fieldPart (hnodup : (p.names.map read).Nodup) (f : Field) :
    (p.fieldPart f).Captured read (p.tables.map FromTable.source :: scopes) := by
  unfold fieldPart
  split
  · rename_i e hfind
    have he := List.mem_of_find?_eq_some hfind
    refine captured_column _ (denotes_of_nodup ?_ (List.mem_map_of_mem he))
    rwa [map_read_sources]
  · exact Part.captured_text _

theorem captured_itemPart (hnodup : (p.names.map read).Nodup) (i : SelectItem) :
    (p.itemPart i).Captured read (p.tables.map FromTable.source :: scopes) := by
  unfold itemPart
  split
  · split
    · exact captured_fieldPart hnodup _
    · exact Part.captured_text _
  · exact Part.captured_text _

/-! ## The select -/

/-- A select is right if and only if all names of its from-clause differ and no embedding of it has
the name of the table. -/
theorem captured_iff
    (htied : ∀ e ∈ p.embeddings, e.2.Tied read ∧ e.2.parent = p.table.name) :
    p.toSql.Captured read [] ↔ (p.names.map read).Nodup ∧
      ∀ e ∈ p.embeddings, read e.2.label ≠ read p.table.name := by
  have hnames := map_read_sources (p := p) read
  have hrows : (p.names.map read).Nodup →
      ∀ e ∈ p.embeddings, ∀ place, (e.2.toSql [place] .base).Captured read
        [p.tables.map FromTable.source] ↔ read e.2.label ≠ read p.table.name := by
    intro hnodup e he place
    obtain ⟨htied, hparent⟩ := htied e he
    rw [← hparent]
    refine Embedding.captured_toSql e.2 htied ?_ (by simp)
    have hbase : (⟨p.table.name, .base⟩ : Source) ∈ p.tables.map FromTable.source :=
      List.mem_cons_self
    rw [hparent]
    exact denotes_of_nodup (hnames ▸ hnodup) hbase
  rw [toSql, Sql.Captured, sources_clauses, captured_clauses, captured_projectionSql]
  constructor
  · rintro ⟨⟨-, hembeddings⟩, hjoins, -, -⟩
    have hnodup : (p.names.map read).Nodup := by
      refine nodup_of_count fun name hname => ?_
      obtain ⟨_, hown, rfl⟩ := List.mem_map.1 hname
      obtain ⟨e, he, rfl⟩ := List.mem_map.1 hown
      obtain ⟨j, hj, rfl⟩ := List.mem_map.1 he
      -- the condition of the join refers to a column of its table
      have hcolumn := hjoins j hj (Source.column ⟨Text.identifier j.1.label, .join j.2⟩ j.1.column)
        (by simp)
      have hcount := count_of_denotes (hcolumn _ rfl)
      rwa [hnames] at hcount
    refine ⟨hnodup, fun e he => ?_⟩
    obtain ⟨place, hplace, rfl⟩ := List.mem_iff_getElem.1 he
    refine (hrows hnodup _ he place).1 (hembeddings (p.embeddings[place], place) ?_)
    rw [List.mk_mem_zipIdx_iff_getElem?]
    exact List.getElem?_eq_getElem hplace
  · rintro ⟨hnodup, hlabels⟩
    refine ⟨⟨fun i _ => captured_itemPart hnodup i, fun e he => ?_⟩, fun j hj => ?_, fun q _ => ?_,
      fun q _ => ?_⟩
    · have hmem := List.fst_mem_of_mem_zipIdx he
      exact (hrows hnodup e.1 hmem e.2).2 (hlabels e.1 hmem)
    · have hsource : (⟨Text.identifier j.1.label, .join j.2⟩ : Source) ∈
          p.tables.map FromTable.source :=
        List.mem_map.2 ⟨_, List.mem_cons_of_mem _ (List.mem_map_of_mem hj), rfl⟩
      have hown : (Source.column ⟨Text.identifier j.1.label, .join j.2⟩ j.1.column).Captured read
          [p.tables.map FromTable.source] :=
        captured_column j.1.column (denotes_of_nodup (hnames ▸ hnodup) hsource)
      simp [joinSql, Sql.Captured, captured_fieldPart hnodup, hown]
    · exact q.captured_toSqlWithin (captured_fieldPart hnodup) false
    · exact q.captured_toSqlWithin (captured_fieldPart hnodup) false

end SelectPlan

end

section

variable {ds : Keyed Declaration} {s : Schema} {α : Type} [DecidableEq α] {read : String → α}
  {key : String} {q : Select} {p : SelectPlan}

theorem SelectPlan.Plans.captured_iff (hp : p.Plans s key q) (hs : Schema.assemble ds = .ok s)
    (hread : ∀ m n : Nat, read s!"r{m}" = read s!"r{n}" → m = n) :
    p.toSql.Captured read [] ↔ (p.names.map read).Nodup ∧
      ∀ e ∈ p.embeddings, read e.2.label ≠ read p.table.name := by
  obtain ⟨used, hembeddings⟩ := hp.embeddings
  refine SelectPlan.captured_iff fun e he => ?_
  obtain ⟨i, -, -, r, _, _, hr, hrelation⟩ :=
    exists_of_forall₂ (Embedding.planned_of_ofInclusions hembeddings).flip he
  exact ⟨Embedding.tied_of_ofRelation (Schema.assembled_of_assemble hs) hread i.2 hr hrelation,
    Embedding.parent_of_ofRelation hrelation⟩

end

/-- Included relations are known as `r1`, `r2`, and so on in the order in which they begin. Every
column that a select refers to is looked up in the table that it belongs to if and only if SQL tells
the name of the base table and the labels of the joins apart, and the name of the base table from
the aliases of the relations that are included in it. What a key of a field refers to is then the
column that was made known under the key. -/
theorem Select.captured_of_compile {ds : Keyed Declaration} {s : Schema}
    (hs : Schema.assemble ds = .ok s) {α : Type} [DecidableEq α] {read : String → α}
    (hread : ∀ m n : Nat, read s!"r{m}" = read s!"r{n}" → m = n) {key : String} {q : Select}
    {c : Compiled} (hc : compile s key q = .ok c) :
    ∃ p, SelectPlan.ofSelect s key q = .ok p ∧ p.toSql.fragment = c.fragment ∧
      (∃ n, Embedding.labelsAll p.embeddings = (List.range' 1 n).map fun k => s!"r{k}") ∧
      (p.toSql.Captured read [] ↔ (p.names.map read).Nodup ∧
        ∀ e ∈ p.embeddings, read e.2.label ≠ read p.table.name) ∧
      ((p.names.map read).Nodup → ∀ x ∈ p.scope.fields.entries,
        ∃ e ∈ p.tables, ∃ c ∈ e.table.columns, x.1 = s!"{e.owner}.{c.key}" ∧
          p.fieldPart x.2 = e.source.column c) := by
  obtain ⟨p, hplan, hcompiled⟩ := bind_eq_ok.1 hc
  cases hcompiled
  have hp := SelectPlan.plans_of_ofSelect hplan
  obtain ⟨used, hembeddings⟩ := hp.embeddings
  obtain ⟨n, -, hlabels⟩ := Embedding.labels_of_ofInclusions _ hembeddings
  refine ⟨p, hplan, p.fragment_toSql, ⟨n, hlabels⟩, hp.captured_iff hs hread, ?_⟩
  intro hnodup x hx
  obtain ⟨e, he, c, hc, rfl⟩ := SelectScope.entries_of_joins hp.scope x hx
  exact ⟨e, he, c, hc, rfl, SelectPlan.fieldPart_eq hnodup he hc⟩

namespace Sql

/-- A name as SQL compares it: without its quotes and in lower case. -/
def readName (name : String) : List Char :=
  match Text.unquote '"' name.toList with
  | some (inside, []) => inside.map Char.toLower
  | _ => name.toList.map Char.toLower

theorem toLower_of_isDigit {c : Char} (h : c.isDigit = true) : c.toLower = c := by
  simp only [Char.isDigit, Bool.and_eq_true, decide_eq_true_eq] at h
  refine dif_neg fun hupper => ?_
  grind

theorem readName_alias (n : Nat) : readName s!"r{n}" = 'r' :: Nat.toDigits 10 n := by
  have hlist : (s!"r{n}").toList = 'r' :: Nat.toDigits 10 n := by
    rw [String.toList_append, Nat.toString_eq_ofList_toDigits, String.toList_ofList]
    rfl
  have hlower : (Nat.toDigits 10 n).map Char.toLower = Nat.toDigits 10 n := by
    conv_rhs => rw [← List.map_id (Nat.toDigits 10 n)]
    refine List.map_congr_left fun c hc => ?_
    exact toLower_of_isDigit (Nat.isDigit_of_mem_toDigits (by decide) (by decide) hc)
  rw [readName, hlist]
  simp [Text.unquote, hlower]

theorem readName_alias_inj {m n : Nat} (h : readName s!"r{m}" = readName s!"r{n}") : m = n := by
  rw [readName_alias, readName_alias, List.cons_inj_right] at h
  simpa using congrArg (fun digits => Nat.ofDigitChars 10 digits 0) h

end Sql

namespace Blog

/-- Users, a row for each of their posts, with three posts of theirs and the authors of these. -/
def selectUsers : Select where
  joins := [⟨.left, "posts", "post", some ⟨"authorId", .eq, "id"⟩⟩]
  shape := some [("id", .field "id"), ("post", .field "post.id")]
  inclusion := some ⟨none, [("posts", ⟨some 3, [("author", .empty)]⟩)]⟩
  filter := some (.compare "post.id" .ne .null)

def planUsers : SelectPlan :=
  match SelectPlan.ofSelect schema "users" selectUsers with
  | .ok p => p
  | .error _ => planPosts

end Blog

theorem Select.captured_of_compile_blog :
    ∃ p c, SelectPlan.ofSelect Blog.schema "users" Blog.selectUsers = .ok p ∧
      compile Blog.schema "users" Blog.selectUsers = .ok c ∧ p.toSql.fragment = c.fragment ∧
      p.toSql.Captured Sql.readName [] := by
  obtain ⟨c, hc⟩ : ∃ c, compile Blog.schema "users" Blog.selectUsers = .ok c := ⟨_, rfl⟩
  obtain ⟨p, hplan, hfragment, -, hcaptured, -⟩ :=
    captured_of_compile Blog.assemble_declarations (fun m n => Sql.readName_alias_inj) hc
  refine ⟨p, c, hplan, hc, hfragment, hcaptured.2 ?_⟩
  obtain rfl : Blog.planUsers = p := Except.ok.inj hplan
  exact ⟨by decide, by decide⟩

namespace Blog

/-- The nodes of a tree, in a table with the name of an alias. -/
def nodes : Table where
  key := "r1"
  name := "r1"
  columns := [
    { name := "id", key := "id", kind := .integer, primaryKey := true },
    { name := "parent_id", key := "parentId", kind := .integer }]
  primaryKey := []
  foreignKeys := []
  columns_ne_nil := by decide
  keys_nodup := by decide

def treeDeclarations : Keyed Declaration :=
  [("nodes", .table nodes),
    ("nodesRelations", .relations (.ofList "r1"
      [("parent", { referenced := "r1", link := .one ["parentId"] ["id"] })]))]

def tree : Schema :=
  match Schema.assemble treeDeclarations with
  | .ok s => s
  | .error _ => ⟨[], [], []⟩

def selectParents : Select where
  shape := some [("id", .field "id")]
  inclusion := some ⟨none, [("parent", .empty)]⟩

/-- Users with a post, under the name that the table of users has in the store. -/
def selectNamesakes : Select where
  joins := [⟨.inner, "posts", "app_users", some ⟨"authorId", .eq, "id"⟩⟩]
  shape := some [("id", .field "id")]

end Blog

/-- What should be the parent of a node is a node that is its own parent, and the id of a user
belongs to either of two tables. -/
theorem SelectPlan.captured_by_namesakes :
    (∃ p c, ofSelect Blog.tree "nodes" Blog.selectParents = .ok p ∧
      Select.compile Blog.tree "nodes" Blog.selectParents = .ok c ∧
      c.sql = "select r1.id as \"id\", (select json_object('id', r1.id, 'parentId', " ++
        "r1.parent_id) from r1 as r1 where r1.id = r1.parent_id) as \"parent\" from r1" ∧
      ¬p.toSql.Captured Sql.readName []) ∧
    ∃ p c, ofSelect Blog.schema "users" Blog.selectNamesakes = .ok p ∧
      Select.compile Blog.schema "users" Blog.selectNamesakes = .ok c ∧
      c.sql = "select app_users.id as \"id\" from app_users join posts as \"app_users\" " ++
        "on \"app_users\".author_id = app_users.id" ∧
      ¬p.toSql.Captured Sql.readName [] := by
  have halias : ∀ m n : Nat, Sql.readName s!"r{m}" = Sql.readName s!"r{n}" → m = n :=
    fun m n => Sql.readName_alias_inj
  constructor
  · refine ⟨_, _, rfl, rfl, by decide +kernel, fun h => ?_⟩
    have htree : Schema.assemble Blog.treeDeclarations = .ok Blog.tree := rfl
    have hplan : ofSelect Blog.tree "nodes" Blog.selectParents = .ok _ := rfl
    have hnames := (((plans_of_ofSelect hplan).captured_iff htree halias).1 h).2
    exact absurd hnames (by decide)
  · refine ⟨_, _, rfl, rfl, by decide +kernel, fun h => ?_⟩
    have hplan : ofSelect Blog.schema "users" Blog.selectNamesakes = .ok _ := rfl
    have hnames :=
      (((plans_of_ofSelect hplan).captured_iff Blog.assemble_declarations halias).1 h).1
    exact absurd hnames (by decide)

end Tabula
