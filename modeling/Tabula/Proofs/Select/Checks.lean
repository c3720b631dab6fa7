import Tabula.Proofs.Embedding.Requests
import Tabula.Proofs.Filter.Leaves
import Tabula.Proofs.Select.Joins
import Tabula.Proofs.Select.Shape

/-!
# What a select is checked for

A select is compiled if it passes a list of checks, and the first check that it fails decides the
error. The checks are said of declarations and of clauses as they are given, without fields, items
or embeddings, and compiling is compared with them clause by clause.
-/

namespace Tabula

/-- A check that is passed, or failed with an error. -/
abbrev Check := Except Error Unit

namespace Check

def that (p : Prop) [Decidable p] (e : Error) : Check :=
  if p then .ok () else .error e

variable {p : Prop} [Decidable p] {e : Error}

theorem that_of (h : p) : that p e = .ok () :=
  if_pos h

theorem that_of_not (h : ¬p) : that p e = .error e :=
  if_neg h

end Check

/-- The table declared under a key. -/
def Declarations.table? (ds : Keyed Declaration) (key : String) : Option Table :=
  (tables ds).find? fun t => t.key == key

theorem Schema.table?_of_assemble {ds : Keyed Declaration} {s : Schema} (h : assemble ds = .ok s)
    (key : String) : s.table? key = Declarations.table? ds key := by
  rw [table?, tables_of_assemble h]
  rfl

namespace Select

/-! ## Keys -/

/-- Who has columns in a select from a table: the joined tables under their labels, the last of them
first, and the table itself under its key. -/
def owners (ds : Keyed Declaration) (t : Table) (joins : List Join) : List (String × Table) :=
  (joins.reverse.filterMap fun j => (Declarations.table? ds j.table).map (j.label, ·)) ++
    [(t.key, t)]

/-- The column that the first owner has under a key of the form `<owner>.<column>`. -/
def registered? (owners : List (String × Table)) (key : String) : Option Column :=
  owners.findSome? fun o => o.2.columns.find? fun c => s!"{o.1}.{c.key}" == key

/-- The column that a key resolves to. -/
def column? (ds : Keyed Declaration) (t : Table) (joins : List Join) (key : String) :
    Option Column :=
  (registered? (owners ds t joins) key).or <|
    if '.' ∈ key.toList then none else registered? (owners ds t joins) s!"{t.key}.{key}"

/-! ## Clauses -/

def joinChecks (ds : Keyed Declaration) (t : Table) (earlier : List Join) (j : Join) : List Check :=
  match Declarations.table? ds j.table, j.condition with
  | none, _ => [.error (.tableNotFound j.table)]
  | some _, none => [.error (.invalidStatement (.joinWithoutCondition j.label))]
  | some u, some ⟨column, operator, field⟩ =>
    [Check.that (operator.isSet = false) (.invalidStatement (.joinOperator j.label operator)),
      Check.that (j.label ∉ t.columns.map Column.key ∧ j.label ∉ earlier.map Join.label)
        (.invalidStatement (.aliasInUse j.label)),
      Check.that (column ∈ u.columns.map Column.key) (.columnNotFound s!"{u.key}.{column}"),
      Check.that (column? ds t earlier field).isSome (.columnNotFound field)]

/-- The checks of joins, each against those before it. -/
def joinsChecks (ds : Keyed Declaration) (t : Table) : List Join → List Join → List Check
  | _, [] => []
  | earlier, j :: rest => joinChecks ds t earlier j ++ joinsChecks ds t (earlier ++ [j]) rest

/-- The shape that a select has if it gives none: the columns of the table, and under the label of
each join an object of the joined columns. -/
def defaultShape (ds : Keyed Declaration) (t : Table) (joins : List Join) : Shape :=
  Shape.ofTable t.key t ++ joins.filterMap fun j =>
    (Declarations.table? ds j.table).map fun u => (j.label, .nested (Shape.ofTable j.label u))

/-- An expression is not checked. -/
def itemCheck (known : String → Option Column) : ShapeLeaf → Check
  | .field key => Check.that (known key).isSome (.columnNotFound key)
  | .raw _ => .ok ()

def leafChecks (known : String → Option Column) (l : Leaf) : List Check :=
  match known l.field with
  | none => [.error (.columnNotFound l.field)]
  | some c =>
    Check.that (l.operator.isSet → l.operand.isArray)
        (.invalidStatement (.needsArray l.field l.operator l.operand)) ::
      l.operands.map fun j => (fun _ => ()) <$> c.encode j

/-- The checks of a select, in order: the table, the joins, what is selected, what is included,
that there is anything of either, and the conditions. -/
def checks (ds : Keyed Declaration) (key : String) (q : Select) : List Check :=
  match Declarations.table? ds key with
  | none => [.error (.tableNotFound key)]
  | some t =>
    let known := column? ds t q.joins
    let leaves := Shape.leaves (q.shape.getD (defaultShape ds t q.joins))
    let relations := (q.inclusion.getD .empty).relations
    joinsChecks ds t [] q.joins ++ leaves.map (itemCheck known) ++
      (Inclusion.requestsOf ds relations t).map (Embedding.check ds) ++
      [Check.that (leaves ≠ [] ∨ relations ≠ []) (.invalidStatement (.emptyProjection t.key))] ++
      (q.filter.toList ++ q.having.toList).flatMap fun f => f.leaves.flatMap (leafChecks known)

end Select

variable {ds : Keyed Declaration} {s : Schema} {t : Table}

/-! ## Keys that resolve -/

theorem Table.map_unit_column (t : Table) (key : String) :
    (fun _ => ()) <$> t.column key =
      Check.that (key ∈ t.columns.map Column.key) (.columnNotFound s!"{t.key}.{key}") := by
  unfold column
  cases hc : t.column? key with
  | none =>
    rw [Check.that_of_not (column?_eq_none.1 hc)]
    rfl
  | some c =>
    rw [Check.that_of (isSome_column?.1 (by rw [hc]; rfl))]
    rfl

theorem Fields.column_get?_ofTable (owner sqlName key : String) (t : Table) :
    ((ofTable owner sqlName t).get? key).map Field.column =
      t.columns.find? fun c => s!"{owner}.{c.key}" == key := by
  unfold ofTable
  induction t.columns with
  | nil => rfl
  | cons c columns ih =>
    rw [List.map_cons, Keyed.get?]
    by_cases h : s!"{owner}.{c.key}" = key
    · rw [if_pos h, List.find?_cons_of_pos (by simpa using h)]
      rfl
    · rw [if_neg h, List.find?_cons_of_neg (by simpa using h), ih]

namespace Select

theorem owners_concat {joins : List Join} {j : Join} {u : Table}
    (hu : Declarations.table? ds j.table = some u) :
    owners ds t (joins ++ [j]) = (j.label, u) :: owners ds t joins := by
  rw [owners, List.reverse_append, List.reverse_singleton, List.singleton_append,
    List.filterMap_cons, hu]
  rfl

theorem defaultShape_concat {joins : List Join} {j : Join} {u : Table}
    (hu : Declarations.table? ds j.table = some u) :
    defaultShape ds t (joins ++ [j]) =
      defaultShape ds t joins ++ [(j.label, .nested (Shape.ofTable j.label u))] := by
  rw [defaultShape, List.filterMap_append, ← List.append_assoc, List.filterMap_cons, hu]
  rfl

theorem joinsChecks_concat (joins : List Join) {earlier : List Join} {j : Join} :
    joinsChecks ds t earlier (joins ++ [j]) =
      joinsChecks ds t earlier joins ++ joinChecks ds t (earlier ++ joins) j := by
  induction joins generalizing earlier with
  | nil => simp [joinsChecks]
  | cons first joins ih => simp [joinsChecks, ih]

end Select

namespace SelectScope

open Select (column? owners registered? defaultShape joinChecks joinsChecks)

/-- The scope has what the table and its joins have. -/
structure Knows (ds : Keyed Declaration) (t : Table) (joins : List Join) (scope : SelectScope) :
    Prop where
  base : scope.fields.base = some t.key
  registered : ∀ key, (scope.fields.entries.get? key).map Field.column =
    registered? (owners ds t joins) key
  shape : scope.shape = defaultShape ds t joins

variable {scope scope' : SelectScope} {joins : List Join}

theorem knows_of_joins (hs : Schema.assemble ds = .ok s)
    (h : joins.foldlM (join s) (ofTable t) = .ok scope) : scope.Knows ds t joins := by
  refine joins_induction (P := fun joins scope => scope.Knows ds t joins) ?_ ?_ h
  · refine ⟨rfl, fun key => ?_, (List.append_nil _).symm⟩
    refine (Fields.column_get?_ofTable t.key t.name key t).trans ?_
    simp [owners, registered?]
  · intro before scope j scope' hknows hjoin
    obtain ⟨u, condition, column, field, hu, -, -, -, -, -, rfl⟩ := join_eq_ok.1 hjoin
    rw [Schema.table_eq_ok, Schema.table?_of_assemble hs] at hu
    refine ⟨hknows.base, fun key => ?_, ?_⟩
    · rw [joined, Fields.add, Keyed.get?_append, Option.map_or, Fields.column_get?_ofTable,
        hknows.registered, Select.owners_concat hu, registered?, registered?, List.findSome?_cons]
      cases u.columns.find? fun c => s!"{j.label}.{c.key}" == key <;> rfl
    · rw [joined, Select.defaultShape_concat hu, hknows.shape]

namespace Knows

theorem column_resolve? (h : scope.Knows ds t joins) (key : String) :
    (scope.fields.resolve? key).map Field.column = column? ds t joins key := by
  unfold Fields.resolve? column?
  rw [h.base, ← h.registered, ← h.registered]
  cases scope.fields.entries.get? key with
  | some field => rfl
  | none =>
    dsimp only
    split
    · rfl
    · rfl

theorem exists_resolve (h : scope.Knows ds t joins) {key : String} {c : Column}
    (hc : column? ds t joins key = some c) :
    ∃ field, scope.fields.resolve key = .ok field ∧ field.column = c := by
  rw [← h.column_resolve?, Option.map_eq_some_iff] at hc
  obtain ⟨field, hfield, hcolumn⟩ := hc
  exact ⟨field, Fields.resolve_eq_ok.2 hfield, hcolumn⟩

theorem resolve_eq_error (h : scope.Knows ds t joins) {key : String}
    (hc : column? ds t joins key = none) :
    scope.fields.resolve key = .error (.columnNotFound key) := by
  rw [← h.column_resolve?, Option.map_eq_none_iff] at hc
  exact Fields.resolve_eq_error hc

theorem map_unit_resolve (h : scope.Knows ds t joins) (key : String) :
    (fun _ => ()) <$> scope.fields.resolve key =
      Check.that (column? ds t joins key).isSome (.columnNotFound key) := by
  cases hc : column? ds t joins key with
  | none =>
    rw [h.resolve_eq_error hc]
    rfl
  | some c =>
    obtain ⟨field, hfield, -⟩ := h.exists_resolve hc
    rw [hfield]
    rfl

end Knows

end SelectScope


/-! ## Clause by clause -/

section

variable {scope : SelectScope} {joins : List Join}

theorem SelectScope.Knows.map_unit_join (h : scope.Knows ds t joins)
    (hs : Schema.assemble ds = .ok s)
    (hkeys : Keyed.keys scope.shape = t.columns.map Column.key ++ joins.map Join.label) (j : Join) :
    (fun _ => ()) <$> scope.join s j = (Select.joinChecks ds t joins j).forM id := by
  unfold SelectScope.join Select.joinChecks Schema.table
  rw [Schema.table?_of_assemble hs]
  cases hu : Declarations.table? ds j.table with
  | none => rfl
  | some u =>
    cases hcondition : j.condition with
    | none => rfl
    | some condition =>
      obtain ⟨column, operator, field⟩ := condition
      have htaken : scope.shape.has j.label = true ↔
          ¬(j.label ∉ t.columns.map Column.key ∧ j.label ∉ joins.map Join.label) := by
        rw [Keyed.has_iff, hkeys, List.mem_append, not_and_or, not_not, not_not]
      simp only [ok_bind, List.forM_eq_forM, List.forM_cons, List.forM_nil, id]
      cases hset : operator.isSet with
      | true => rfl
      | false =>
        rw [Check.that_of rfl, ok_bind]
        cases hlabel : scope.shape.has j.label with
        | true =>
          rw [Check.that_of_not (htaken.1 hlabel)]
          rfl
        | false =>
          rw [Check.that_of (Decidable.of_not_not (mt htaken.2 (by rw [hlabel]; decide))), ok_bind]
          exact map_unit_bind (u.map_unit_column column) fun c _ =>
            map_unit_bind (h.map_unit_resolve field) fun f _ => rfl

theorem SelectScope.map_unit_joins (hs : Schema.assemble ds = .ok s) (t : Table)
    (joins : List Join) :
    (fun _ => ()) <$> joins.foldlM (join s) (ofTable t) =
      (Select.joinsChecks ds t [] joins).forM id := by
  induction joins using List.reverseRecOn with
  | nil => rfl
  | append_singleton before j ih =>
    rw [List.foldlM_append, Select.joinsChecks_concat, List.nil_append, forM_append]
    refine map_unit_bind ih fun scope hscope => ?_
    simp only [List.foldlM_cons, List.foldlM_nil, bind_pure]
    exact (knows_of_joins hs hscope).map_unit_join hs (keys_shape_of_joins hscope) j

theorem SelectItem.map_unit_ofEntries (h : scope.Knows ds t joins) (shape : Shape) :
    (fun _ => ()) <$> ofEntries scope.fields shape =
      ((Shape.leaves shape).map (Select.itemCheck (Select.column? ds t joins))).forM id := by
  rw [ofEntries_eq, map_unit_mapM, forM_map_id]
  refine forM_congr fun l _ => ?_
  cases l with
  | field key =>
    rw [Select.itemCheck, ← h.map_unit_resolve, ofLeaf]
    cases scope.fields.resolve key <;> rfl
  | raw expression => rfl

theorem Leaf.map_unit_condition (fields : Fields) (l : Leaf) :
    (fun _ => ()) <$> l.condition fields =
      (Select.leafChecks (fun key => (fields.resolve? key).map Field.column) l).forM id := by
  obtain ⟨key, operator, operand⟩ := l
  unfold condition Condition.ofLeaf Select.leafChecks
  dsimp only
  cases hfield : fields.resolve? key with
  | none =>
    rw [Fields.resolve_eq_error hfield]
    rfl
  | some field =>
    rw [Fields.resolve_eq_ok.2 hfield, ok_bind]
    dsimp only [Option.map_some]
    split
    · rfl
    · rfl
    rw [List.forM_eq_forM, List.forM_cons, ← List.forM_eq_forM, forM_map_id, ← map_unit_mapM]
    split
    · rename_i hset
      cases operand with
      | arr items =>
        have harray : operator.isSet = true → (Json.arr items).isArray = true := fun _ => rfl
        rw [operands_arr hset, Check.that_of harray]
        exact map_unit_bind_pure
      | _ =>
        rw [Check.that_of_not (by simp [hset, Json.isArray])]
        rfl
    · rename_i hne hnn hset
      rw [operands_single (Bool.eq_false_iff.2 hset) hne hnn,
        Check.that_of fun h => absurd h hset, List.mapM_cons]
      cases field.column.encode operand <;> rfl

theorem Predicate.map_unit_ofFilter (fields : Fields) (f : Filter) :
    (fun _ => ()) <$> ofFilter fields f =
      f.leaves.forM fun l => (fun _ => ()) <$> l.condition fields := by
  rw [← map_unit_mapM, ← conditions_ofFilter]
  cases ofFilter fields f <;> rfl

theorem SelectScope.Knows.map_unit_ofFilter (h : scope.Knows ds t joins) (f : Filter) :
    (fun _ => ()) <$> Predicate.ofFilter scope.fields f =
      (f.leaves.flatMap (Select.leafChecks (Select.column? ds t joins))).forM id := by
  have hknown : (fun key => (scope.fields.resolve? key).map Field.column) =
      Select.column? ds t joins := funext h.column_resolve?
  rw [Predicate.map_unit_ofFilter, forM_flatMap, ← hknown]
  exact forM_congr fun l _ => l.map_unit_condition scope.fields

theorem Predicate.map_unit_mapM_ofFilter (h : scope.Knows ds t joins) (f : Option Filter) :
    (fun _ => ()) <$> f.mapM (ofFilter scope.fields) =
      (f.toList.flatMap fun f =>
        f.leaves.flatMap (Select.leafChecks (Select.column? ds t joins))).forM id := by
  cases f with
  | none => rfl
  | some f =>
    have hsome : (some f).mapM (ofFilter scope.fields) = some <$> ofFilter scope.fields f := rfl
    rw [Option.toList_some, List.flatMap_singleton, ← h.map_unit_ofFilter, hsome]
    cases ofFilter scope.fields f <;> rfl

end

namespace Select

/-- Nothing is selected if the shape has no leaves and nothing is included. -/
theorem isEmpty_projection_iff {fields : Fields} {shape : Shape} {items : List SelectItem}
    (hitems : SelectItem.ofEntries fields shape = .ok items)
    {relations : List (String × Inclusion)} {key parent : String} {used : Nat}
    {embeddings : List (String × Embedding) × Nat}
    (hembeddings : Embedding.ofInclusions s relations key parent used = .ok embeddings) :
    ((SelectItem.distinct items).isEmpty && embeddings.1.isEmpty) = true ↔
      ¬(Shape.leaves shape ≠ [] ∨ relations ≠ []) := by
  rw [SelectItem.ofEntries_eq, mapM_eq_ok] at hitems
  have hlength := (Embedding.planned_of_ofInclusions hembeddings).length_eq
  rw [Bool.and_eq_true, List.isEmpty_iff, List.isEmpty_iff, SelectItem.distinct_eq_nil, not_or,
    not_not, not_not, ← List.length_eq_zero_iff, ← hitems.length_eq, List.length_eq_zero_iff,
    ← List.length_eq_zero_iff (l := embeddings.1), ← hlength, List.length_eq_zero_iff]

/-- Apart from its result, compiling a select is one check after another. -/
theorem map_unit_compile (hs : Schema.assemble ds = .ok s) (key : String) (q : Select) :
    (fun _ => ()) <$> compile s key q = (q.checks ds key).forM id := by
  rw [compile, map_unit_bind_pure, SelectPlan.ofSelect, checks, Schema.table,
    Schema.table?_of_assemble hs]
  cases ht : Declarations.table? ds key with
  | none => rfl
  | some t =>
    have hmem : t ∈ s.tables := by
      rw [Schema.tables_of_assemble hs]
      exact List.mem_of_find?_eq_some ht
    simp only [ok_bind, List.append_assoc, List.flatMap_append, forM_append]
    refine map_unit_bind (SelectScope.map_unit_joins hs t q.joins) fun scope hscope => ?_
    have hknows := SelectScope.knows_of_joins hs hscope
    rw [← hknows.shape]
    refine map_unit_bind (SelectItem.map_unit_ofEntries hknows _) fun items hitems => ?_
    rw [forM_map_id]
    refine map_unit_bind (Embedding.map_unit_ofInclusions hs _ hmem t.name 0)
      fun embeddings hembeddings => ?_
    have hempty := isEmpty_projection_iff hitems hembeddings
    rw [List.forM_eq_forM, List.forM_cons, List.forM_nil]
    split
    · rename_i h
      rw [Check.that_of_not (hempty.1 h)]
      rfl
    · rename_i h
      rw [Check.that_of (Decidable.of_not_not (mt hempty.2 h)), id, ok_bind, pure_eq_ok, ok_bind]
      refine map_unit_bind (Predicate.map_unit_mapM_ofFilter hknows q.filter) fun filter _ => ?_
      exact map_unit_bind_pure.trans (Predicate.map_unit_mapM_ofFilter hknows q.having)

/-- A select is compiled if and only if it passes its checks, and the first check that it fails
decides the error. -/
theorem compile_iff_checks (hs : Schema.assemble ds = .ok s) (key : String) (q : Select) :
    ((∃ c, compile s key q = .ok c) ↔ ∀ check ∈ q.checks ds key, check = .ok ()) ∧
      ∀ e, compile s key q = .error e ↔ ∃ before after,
        q.checks ds key = before ++ .error e :: after ∧ ∀ check ∈ before, check = .ok () := by
  have hunit := map_unit_compile hs key q
  constructor
  · rw [exists_ok_iff, hunit, forM_eq_ok]
    rfl
  · intro e
    rw [← map_eq_error, hunit, forM_eq_error]
    constructor
    · rintro ⟨before, check, after, hsplit, hbefore, rfl⟩
      exact ⟨before, after, hsplit, hbefore⟩
    · rintro ⟨before, after, hsplit, hbefore⟩
      exact ⟨before, .error e, after, hsplit, hbefore, rfl⟩

end Select

namespace Blog

/-- Posts with an editor, which is no relation, and of authors with a name, which is no column. -/
def selectEdited : Select where
  joins := [authorJoin]
  shape := some [("id", .field "id")]
  inclusion := some ⟨none, [("editor", .empty)]⟩
  filter := some (.compare "author.name" .ne .null)

end Blog

theorem Select.compile_iff_checks_blog :
    (∃ c, compile Blog.schema "posts" Blog.withPeople = .ok c) ∧
      compile Blog.schema "posts" Blog.selectEdited =
        .error (.relationNotFound "posts" "editor") := by
  constructor
  · refine (compile_iff_checks Blog.assemble_declarations "posts" Blog.withPeople).1.2 ?_
    have hchecks : Blog.withPeople.checks Blog.declarations "posts" = .replicate 18 (.ok ()) := rfl
    rw [hchecks]
    exact fun check hcheck => List.eq_of_mem_replicate hcheck
  · refine ((compile_iff_checks Blog.assemble_declarations "posts" Blog.selectEdited).2 _).2 ?_
    exact ⟨.replicate 5 (.ok ()), [.ok (), .error (.columnNotFound "author.name")], rfl,
      fun check hcheck => List.eq_of_mem_replicate hcheck⟩

end Tabula
