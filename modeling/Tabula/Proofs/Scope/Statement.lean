import Tabula.Plan.Select
import Tabula.Proofs.Scope.Sql

/-!
# Which tables a select speaks of

The SQL of a plan with its names: which from-clause names what, and for each column that is referred
to the table that it was found in. Written out, it is what the plan renders.
-/

namespace Tabula

def Source.column (source : Source) (c : Column) : Part :=
  .column ⟨source.name, c.name, source.table⟩

@[simp] theorem Source.sql_column (source : Source) (c : Column) :
    (source.column c).sql = s!"{source.name}.{c.name}" := rfl

@[simp] theorem Source.source?_column (source : Source) (c : Column) :
    (source.column c).source? = none := rfl

/-! ## Included rows -/

/-- What puts a column into JSON. -/
def Column.embeddedParts (c : Column) (source : Source) : List Part :=
  match c.kind with
  | .blob => [.text "case when ", source.column c, .text " is null then null else hex(",
      source.column c, .text ") end"]
  | _ => [source.column c]

namespace Embedding

/-- The equalities of columns of the table and of the row around it. -/
def conditionParts (e : Embedding) (mine around : Occurrence) : List Part :=
  [Part.text " and "].intercalate (e.pairs.map fun (own, theirs) =>
    [Source.column ⟨e.label, mine⟩ own, .text " = ", Source.column ⟨e.parent, around⟩ theirs])

def objectSql (e : Embedding) (mine : Occurrence) (nested : List Sql) : Sql :=
  let columns := e.table.columns.map fun c =>
    Sql.line (.text s!"'{c.key}', " :: c.embeddedParts ⟨e.label, mine⟩)
  ((Sql.text "json_object(").push (.join ", " (columns ++ nested))).push (.text ")")

/-- The table under its alias, and which of its rows belong to the row around. -/
def rowsSql (e : Embedding) (start : String) (mine around : Occurrence) : Sql :=
  .line (.text start :: .renamed ⟨e.label, mine⟩ :: .text " where " ::
    e.conditionParts mine around)

def subquerySql (e : Embedding) (mine around : Occurrence) (nested : List Sql) : Sql :=
  match e.kind with
  | .one =>
    (Sql.select (((Sql.text "select").append (e.objectSql mine nested)).append
      (e.rowsSql s!"from {e.table.name} " mine around))).parens
  | .many =>
    let rows := e.rowsSql s!"select * from {e.table.name} " mine around
    let rows :=
      match e.limit with
      | some limit => (rows.append (.text "limit")).append (.plain (.parameter (.integer limit)))
      | none => rows
    let array := ((Sql.text "json_group_array(").push (e.objectSql mine nested)).push (.text ")")
    (Sql.select (((((Sql.text "select").append array).append (.text "from")).append
      (Sql.derived (.select rows)).parens).append (.line [.renamed ⟨e.label, mine⟩]))).parens

mutual

/-- The SQL of an embedding at a place, for rows of a table around it. -/
def toSql : Embedding → List Nat → Occurrence → Sql
  | ⟨kind, table, label, parent, pairs, limit, nested⟩, path, around =>
    subquerySql ⟨kind, table, label, parent, pairs, limit, nested⟩ (.rows path) around
      (propertiesSql nested path 0)

/-- The properties of embeddings inside of another, the first of which has a place of its own. -/
def propertiesSql : List (String × Embedding) → List Nat → Nat → List Sql
  | [], _, _ => []
  | (name, e) :: rest, path, place =>
    ((Sql.text s!"'{name}', json(").push (e.toSql (place :: path) (.rows path))).push (.text ")") ::
      propertiesSql rest path (place + 1)

end

end Embedding

/-! ## Conditions -/

def Condition.toSql (part : Field → Part) (c : Condition) : Sql :=
  match c.test with
  | .isNull => .line [part c.field, .text " is null"]
  | .isNotNull => .line [part c.field, .text " is not null"]
  | .compare operator operand =>
    (Sql.line [part c.field, .text s!" {operator.sql}"]).append (.plain (.parameter operand))
  | .among operator operands =>
    (Sql.line [part c.field, .text s!" {operator.sql}"]).append (.plain (.parameters operands))

namespace Predicate

mutual

def toSqlWithin (part : Field → Part) : Bool → Predicate → Sql
  | nested, .group c children =>
    let parts := toSqlParts part children
    let joined := Sql.join c.separator parts
    if nested && 1 < parts.length then joined.parens else joined
  | _, .test condition => condition.toSql part

def toSqlParts (part : Field → Part) : List Predicate → List Sql
  | [] => []
  | p :: rest =>
    let first := toSqlWithin part true p
    if first.fragment.isEmpty then toSqlParts part rest else first :: toSqlParts part rest

end

end Predicate

def Sql.appendCondition (f : Sql) (keyword : String) (part : Field → Part) (p : Option Predicate) :
    Sql :=
  match p with
  | none => f
  | some p =>
    let condition := p.toSqlWithin part false
    if condition.fragment.isEmpty then f else (f.append (.text keyword)).append condition

/-! ## Selects -/

/-- A table of a from-clause, with the owner that stands in the keys of its fields. -/
structure FromTable where
  owner : String
  source : Source
  table : Table

/-- The from-clause of a select: the base table under its own name, and joins under their labels. -/
def SelectScope.tables (t : Table) (joins : List JoinPlan) : List FromTable :=
  ⟨t.key, ⟨t.name, .base⟩, t⟩ :: joins.zipIdx.map fun (j, index) =>
    ⟨j.label, ⟨Text.identifier j.label, .join index⟩, j.table⟩

namespace SelectPlan

def tables (p : SelectPlan) : List FromTable :=
  SelectScope.tables p.table p.scope.joins

/-- The names that the from-clause gives. -/
def names (p : SelectPlan) : List String :=
  p.tables.map fun e => e.source.name

/-- What refers to a field: the column of the table that it is read from. -/
def fieldPart (p : SelectPlan) (f : Field) : Part :=
  match p.tables.find? fun e =>
      f.column ∈ e.table.columns ∧ f.sql = s!"{e.source.name}.{f.column.name}" with
  | some e => e.source.column f.column
  | none => .text f.sql

/-- A selected field, or an expression, which is taken as it is. -/
def itemPart (p : SelectPlan) (i : SelectItem) : Part :=
  match p.scope.fields.resolve? i.label with
  | some f => if f.sql = i.sql then p.fieldPart f else .text i.sql
  | none => .text i.sql

def itemSql (p : SelectPlan) (i : SelectItem) : Sql :=
  .line [p.itemPart i, .text s!" as {Text.identifier i.label}"]

def joinSql (p : SelectPlan) (j : JoinPlan) (index : Nat) : Sql :=
  let source : Source := ⟨Text.identifier j.label, .join index⟩
  .line [.text s!"{j.kind.sql} {j.table.name} ", .renamed source, .text " on ",
    source.column j.column, .text s!" {j.operator.sql} ", p.fieldPart j.field]

def projectionSql (p : SelectPlan) : Sql :=
  let embedded := p.embeddings.zipIdx.map fun ((name, e), place) =>
    (e.toSql [place] .base).append (.text s!"as {Text.identifier name}")
  .join ", " (p.items.map p.itemSql ++ embedded)

def clauses (p : SelectPlan) : Sql :=
  let from_ := ((Sql.text "select").append p.projectionSql).append
    (.line [.named ⟨p.table.name, .base⟩])
  let joined := p.scope.joins.zipIdx.foldl (fun f (j, index) => f.append (p.joinSql j index)) from_
  let filtered := joined.appendCondition "where" p.fieldPart p.filter
  let grouped := (filtered.append (.text p.grouping)).appendCondition "having" p.fieldPart p.having
  (grouped.append (.text p.ordering)).append (.plain p.window)

def toSql (p : SelectPlan) : Sql :=
  .select p.clauses

end SelectPlan

/-! ## What is written -/

theorem Column.join_embeddedParts (c : Column) (source : Source) :
    String.join ((c.embeddedParts source).map Part.sql) = c.embedded source.name := by
  unfold embeddedParts embedded
  cases c.kind with
  | blob =>
    simp only [List.map_cons, List.map_nil, String.join_cons, String.join_nil, Part.sql_text,
      Source.sql_column, String.append_assoc, String.append_empty]
    rfl
  | _ =>
    simp only [List.map_cons, List.map_nil, String.join_cons, String.join_nil, Source.sql_column,
      String.append_empty]

namespace Embedding

theorem join_conditionParts (e : Embedding) (mine around : Occurrence) :
    String.join ((e.conditionParts mine around).map Part.sql) = e.condition := by
  rw [conditionParts, join_intercalate, condition, List.map_map]
  congr 1
  refine List.map_congr_left fun p _ => ?_
  simp only [Function.comp_apply, List.map_cons, List.map_nil, String.join_cons, String.join_nil,
    Part.sql, Source.column, String.append_assoc, String.append_empty]
  rfl

theorem fragment_objectSql (e : Embedding) (mine : Occurrence) (nested : List Sql) :
    (e.objectSql mine nested).fragment = e.object (nested.map Sql.fragment) := by
  have hcolumns : (e.table.columns.map fun c => Sql.line
      (.text s!"'{c.key}', " :: c.embeddedParts ⟨e.label, mine⟩)).map Sql.fragment =
      e.table.columns.map fun c => Fragment.raw s!"'{c.key}', {c.embedded e.label}" := by
    rw [List.map_map]
    refine List.map_congr_left fun c _ => ?_
    rw [Function.comp_apply, Sql.fragment, List.map_cons, String.join_cons,
      Column.join_embeddedParts]
    rfl
  rw [objectSql, object, Sql.fragment, Sql.fragment, Sql.fragment_join, List.map_append, hcolumns]
  rfl

theorem fragment_rowsSql (e : Embedding) (start : String) (mine around : Occurrence) :
    (e.rowsSql (start ++ toString " ") mine around).fragment =
      .raw (start ++ toString " as " ++ toString e.label ++ toString " where " ++
        toString e.condition) := by
  have hblank : toString " " ++ toString "as " = toString " as " := by decide
  rw [rowsSql, Sql.fragment, List.map_cons, List.map_cons, List.map_cons, String.join_cons,
    String.join_cons, String.join_cons, join_conditionParts]
  simp only [Part.sql_text, Part.sql_renamed, ← hblank, String.append_assoc]
  rfl

theorem fragment_subquerySql (e : Embedding) (mine around : Occurrence) (nested : List Sql) :
    (e.subquerySql mine around nested).fragment = e.subquery (nested.map Sql.fragment) := by
  unfold subquerySql subquery
  cases e.kind with
  | one =>
    simp only [Sql.fragment_parens, Sql.fragment_select, Sql.fragment_append, fragment_rowsSql,
      fragment_objectSql]
    rfl
  | many =>
    have hname : (Sql.line [.renamed ⟨e.label, mine⟩]).fragment = .raw s!"as {e.label}" := by
      rw [Sql.fragment, List.map_singleton, String.join_cons, String.join_nil, String.append_empty,
        Part.sql_renamed]
    cases e.limit <;>
      (simp only [Sql.fragment_parens, Sql.fragment_select, Sql.fragment_derived,
        Sql.fragment_append, Sql.fragment_push, fragment_rowsSql, hname, fragment_objectSql]; rfl)

mutual

theorem fragment_toSql : (e : Embedding) → (path : List Nat) → (around : Occurrence) →
    (e.toSql path around).fragment = e.render
  | ⟨kind, table, label, parent, pairs, limit, nested⟩, path, around => by
    rw [toSql, fragment_subquerySql, fragment_propertiesSql, render]

theorem fragment_propertiesSql : (es : List (String × Embedding)) → (path : List Nat) →
    (place : Nat) → (propertiesSql es path place).map Sql.fragment = properties es
  | [], _, _ => rfl
  | (name, e) :: rest, path, place => by
    rw [propertiesSql, properties, List.map_cons, fragment_propertiesSql, Sql.fragment,
      Sql.fragment, fragment_toSql]
    rfl

end

end Embedding

section

variable {part : Field → Part}

theorem Condition.fragment_toSql (hpart : ∀ f, (part f).sql = f.sql) (c : Condition) :
    (c.toSql part).fragment = c.render := by
  have hline : ∀ s : String,
      (Sql.line [part c.field, .text s]).fragment = .raw (c.field.sql ++ s) := by
    intro s
    rw [Sql.fragment, List.map_cons, List.map_singleton, String.join_cons, String.join_cons,
      String.join_nil, String.append_empty, hpart, Part.sql_text]
  unfold toSql render
  cases c.test with
  | isNull => exact hline " is null"
  | isNotNull => exact hline " is not null"
  | compare operator operand =>
    simp only [Sql.fragment_append, hline, Sql.fragment_plain, ← String.append_assoc]
    rfl
  | among operator operands =>
    simp only [Sql.fragment_append, hline, Sql.fragment_plain, ← String.append_assoc]
    rfl

namespace Predicate

mutual

theorem fragment_toSqlWithin (hpart : ∀ f, (part f).sql = f.sql) (nested : Bool) :
    (p : Predicate) → (p.toSqlWithin part nested).fragment = p.renderWithin nested
  | .group c children => by
    have ih := fragment_toSqlParts hpart children
    have hlength : (toSqlParts part children).length = (renderParts children).length := by
      rw [← ih, List.length_map]
    simp only [toSqlWithin, renderWithin, hlength, ← ih]
    split
    · rw [Sql.fragment_parens, Sql.fragment_join]
    · rw [Sql.fragment_join]
  | .test condition => condition.fragment_toSql hpart

theorem fragment_toSqlParts (hpart : ∀ f, (part f).sql = f.sql) :
    (ps : List Predicate) → (toSqlParts part ps).map Sql.fragment = renderParts ps
  | [] => rfl
  | p :: rest => by
    have ih := fragment_toSqlWithin hpart true p
    have ihs := fragment_toSqlParts hpart rest
    simp only [toSqlParts, renderParts, ih]
    split
    · exact ihs
    · rw [List.map_cons, ih, ihs]

end

end Predicate

theorem Sql.fragment_appendCondition (hpart : ∀ f, (part f).sql = f.sql) (f : Sql)
    (keyword : String) (p : Option Predicate) :
    (f.appendCondition keyword part p).fragment = f.fragment.appendCondition keyword p := by
  cases p with
  | none => rfl
  | some p =>
    have hp : (p.toSqlWithin part false).fragment = p.render := p.fragment_toSqlWithin hpart false
    simp only [appendCondition, Fragment.appendCondition, hp]
    split
    · rfl
    · rw [fragment_append, fragment_append, hp]
      rfl

end

namespace SelectPlan

variable {p : SelectPlan}

theorem sql_fieldPart (f : Field) : (p.fieldPart f).sql = f.sql := by
  unfold fieldPart
  split
  · rename_i e hfind
    have hreads := List.find?_some hfind
    simp only [decide_eq_true_eq] at hreads
    rw [Source.sql_column, hreads.2]
  · rfl

theorem sql_itemPart (i : SelectItem) : (p.itemPart i).sql = i.sql := by
  unfold itemPart
  split
  · split
    · rw [sql_fieldPart]
      assumption
    · rfl
  · rfl

theorem fragment_itemSql (i : SelectItem) : (p.itemSql i).fragment = i.render := by
  rw [itemSql, Sql.fragment, List.map_cons, List.map_singleton, String.join_cons, String.join_cons,
    String.join_nil, String.append_empty, sql_itemPart, Part.sql_text, ← String.append_assoc]
  rfl

theorem fragment_joinSql (j : JoinPlan) (index : Nat) :
    (p.joinSql j index).fragment = j.render := by
  have hblank : toString " " ++ toString "as " = toString " as " := by decide
  rw [joinSql, Sql.fragment, JoinPlan.render]
  simp only [List.map_cons, List.map_nil, String.join_cons, String.join_nil, Part.sql_text,
    Part.sql_renamed, Source.sql_column, sql_fieldPart, String.append_empty, ← hblank,
    String.append_assoc]
  rfl

theorem fragment_projectionSql : p.projectionSql.fragment = p.projection := by
  have hembedded : (p.embeddings.zipIdx.map fun x =>
      (x.1.2.toSql [x.2] .base).append (.text s!"as {Text.identifier x.1.1}")).map Sql.fragment =
      p.embeddings.map fun x => x.2.render.appendRaw s!"as {Text.identifier x.1}" := by
    have hfst : p.embeddings.zipIdx.map Prod.fst = p.embeddings :=
      List.zipIdx_map_fst 0 p.embeddings
    -- places tell the embeddings apart, but they are not written
    conv_rhs => rw [← hfst]
    rw [List.map_map, List.map_map]
    refine List.map_congr_left fun x _ => ?_
    rw [Function.comp_apply, Sql.fragment_append, Embedding.fragment_toSql]
    rfl
  have hitems : (p.items.map p.itemSql).map Sql.fragment = p.items.map SelectItem.render := by
    rw [List.map_map]
    exact List.map_congr_left fun i _ => fragment_itemSql i
  rw [projectionSql, Sql.fragment_join, List.map_append, hitems]
  exact congrArg (fun embedded => Fragment.join ", " (p.items.map SelectItem.render ++ embedded))
    hembedded

theorem fragment_foldl_joinSql (joins : List JoinPlan) (index : Nat) (f : Sql) :
    ((joins.zipIdx index).foldl (fun f (j, index) => f.append (p.joinSql j index)) f).fragment =
      joins.foldl (fun f j => f.append j.render) f.fragment := by
  induction joins generalizing index f with
  | nil => rfl
  | cons j joins ih =>
    rw [List.zipIdx_cons, List.foldl_cons, List.foldl_cons, ih, Sql.fragment_append,
      fragment_joinSql]

/-- The select with its names is written as the plan renders it. -/
theorem fragment_toSql (p : SelectPlan) : p.toSql.fragment = p.render := by
  have hfrom : (Sql.line [.named ⟨p.table.name, .base⟩]).fragment =
      .raw s!"from {p.table.name}" := by
    rw [Sql.fragment, List.map_singleton, String.join_cons, String.join_nil, String.append_empty,
      Part.sql_named]
  simp only [toSql, clauses, render, Sql.fragment_select, Sql.fragment_append,
    Sql.fragment_appendCondition sql_fieldPart, fragment_foldl_joinSql, hfrom,
    fragment_projectionSql]
  rfl

end SelectPlan

end Tabula
