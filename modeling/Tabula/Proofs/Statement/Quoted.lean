import Tabula.Proofs.Text.Passage
import Tabula.Proofs.Select.Keys
import Tabula.Proofs.Select.Lookups
import Tabula.Proofs.Write.Insert
import Tabula.Proofs.Write.Update
import Tabula.Value.Literal

/-!
# Names that statements quote

Aliases and keys stand between marks in the statements that have them. Each is read back as it was
given, and the aliases of a select and of returned columns are the names that the mapper asks the
rows for.
-/

namespace Tabula

/-! ## Clauses -/

/-- What a text adds behind another: a blank before it, or nothing. -/
def spaced (s : String) : String :=
  if s = "" then "" else " " ++ s

theorem head_spaced_ne (s : String) : (spaced s).toList.head? ≠ some '"' := by
  unfold spaced
  split_ifs <;> simp

theorem head_conditionText_ne (keyword : String) (p : Option Predicate) :
    (conditionText keyword p).toList.head? ≠ some '"' := by
  cases p with
  | none => simp [conditionText]
  | some p =>
    rw [conditionText]
    split_ifs
    · simp
    · change (" " ++ keyword ++ " " ++ p.render.sql).toList.head? ≠ some '"'
      simp

namespace Fragment

/-- The fragment has a text to which clauses are added. -/
structure Begun (f : Fragment) (s : String) : Prop where
  sql : f.sql = s
  ne : s ≠ ""

variable {f : Fragment} {s : String}

theorem begun_raw (hs : s ≠ "") : (raw s).Begun s :=
  ⟨sql_raw s, hs⟩

theorem Begun.sql_ne (h : f.Begun s) : f.sql ≠ "" := by
  rw [h.sql]
  exact h.ne

theorem Begun.add (h : f.Begun s) {g : Fragment} {t : String} (hg : g.sql = f.sql ++ t) :
    g.Begun (s ++ t) :=
  ⟨by rw [hg, h.sql], by simp [h.ne]⟩

theorem Begun.append (h : f.Begun s) (g : Fragment) : (f.append g).Begun (s ++ spaced g.sql) := by
  refine h.add ?_
  rw [sql_append_eq, spaced, if_neg h.sql_ne]
  split_ifs
  · rw [String.append_empty]
  · rw [String.append_assoc]

theorem Begun.appendRaw (h : f.Begun s) (t : String) : (f.appendRaw t).Begun (s ++ spaced t) := by
  have happend := h.append (raw t)
  rwa [sql_raw] at happend

theorem Begun.appendCondition (h : f.Begun s) (keyword : String) (hkeyword : keyword ≠ "")
    (p : Option Predicate) :
    (f.appendCondition keyword p).Begun (s ++ conditionText keyword p) :=
  h.add (sql_appendCondition h.sql_ne hkeyword p)

end Fragment

namespace Passage

variable {ps qs : List Passage} {s : String}

/-- Passages that can follow any others. -/
structure Safe (ps : List Passage) : Prop where
  separated : Separated ps
  clear : Clear ps

theorem safe_nil : Safe [] :=
  ⟨trivial, clear_nil⟩

theorem Safe.text (hs : s.toList.head? ≠ some '"') (hps : Safe ps) : Safe (text s :: ps) :=
  ⟨hps.separated, clear_text hs hps.clear⟩

theorem Safe.append (hps : Safe ps) (hqs : Safe qs) : Safe (ps ++ qs) :=
  ⟨hps.separated.append hqs.separated hqs.clear, hps.clear.append hqs.clear⟩

theorem safe_flatMap {α : Type} {line : α → List Passage} (h : ∀ x, Safe (line x)) (xs : List α) :
    Safe (xs.flatMap line) := by
  induction xs with
  | nil => exact safe_nil
  | cons x xs ih => exact (h x).append ih

/-- A keyword, and behind it lines with commas between them. -/
def clause (keyword : String) (lines : List (List Passage)) : List Passage :=
  if lines = [] then [] else text (" " ++ keyword) :: [text ", "].intercalate lines

theorem safe_clause (keyword : String) {lines : List (List Passage)}
    (h : ∀ line ∈ lines, Separated line) : Safe (clause keyword lines) := by
  unfold clause
  split_ifs
  · exact safe_nil
  · refine ⟨separated_lines (by decide) (by decide) h, ?_⟩
    simp [Clear, sql]

theorem names_clause (keyword : String) (lines : List (List Passage)) :
    names (clause keyword lines) = lines.flatMap names := by
  unfold clause
  split_ifs with h
  · rw [h]
    rfl
  · exact names_lines ", " lines

theorem join_clause {keyword : String} (hkeyword : keyword ≠ "") {α : Type}
    {line : α → List Passage} {content : α → String} (h : ∀ x, join (line x) = content x)
    (xs : List α) : join (clause keyword (xs.map line)) =
      spaced (if xs.isEmpty then "" else keyword ++ ", ".intercalate (xs.map content)) := by
  have hlines : (xs.map line).map join = xs.map content := by
    rw [List.map_map]
    exact List.map_congr_left fun x _ => h x
  by_cases hxs : xs = []
  · rw [hxs]
    rfl
  · rw [clause, if_neg (mt List.map_eq_nil_iff.1 hxs), if_neg (mt List.isEmpty_iff.1 hxs),
      join_cons, join_lines, hlines, sql, spaced, if_neg (by simp [hkeyword]), String.append_assoc]

end Passage

/-! ## Selects -/

namespace Embedding

theorem render_ne (e : Embedding) : e.render.sql ≠ "" := by
  obtain ⟨kind, table, label, parent, pairs, limit, nested⟩ := e
  rw [render, subquery]
  cases kind <;> simp [Fragment.sql_parens]

end Embedding

/-- An expression and its alias. -/
def aliased (expression label : String) : List Passage :=
  [.text (expression ++ " as "), .name label]

theorem join_aliased (expression label : String) :
    Passage.join (aliased expression label) = expression ++ " as " ++ Text.identifier label := by
  simp [aliased, Passage.sql]

theorem separated_aliased (expression label : String) :
    Passage.Separated (aliased expression label) :=
  ⟨Passage.clear_nil, trivial⟩

def JoinPlan.passages (j : JoinPlan) : List Passage :=
  [.text (" " ++ j.kind.sql ++ " " ++ j.table.name ++ " as "), .name j.label, .text " on ",
    .name j.label, .text ("." ++ j.column.name ++ " " ++ j.operator.sql ++ " " ++ j.field.sql)]

namespace JoinPlan

theorem join_passages (j : JoinPlan) : Passage.join j.passages = spaced j.render.sql := by
  have hsql : j.render.sql = j.kind.sql ++ " " ++ j.table.name ++ " as " ++
      Text.identifier j.label ++ " on " ++
        (Text.identifier j.label ++ "." ++ j.column.name ++ " " ++ j.operator.sql ++ " " ++
          j.field.sql) := by
    rw [render, Fragment.sql_raw]
    rfl
  have hne : j.render.sql ≠ "" := by
    rw [hsql]
    simp
  rw [spaced, if_neg hne, hsql]
  simp [passages, Passage.sql, String.append_assoc]

theorem safe_passages (j : JoinPlan) : Passage.Safe j.passages := by
  refine ⟨⟨?_, ?_, trivial⟩, ?_⟩
  · simp [Passage.Clear, Passage.sql]
  · simp [Passage.Clear, Passage.sql]
  · simp [Passage.Clear, passages, Passage.sql]

end JoinPlan

namespace SelectPlan

variable {p : SelectPlan}

/-- What is selected, under its aliases. -/
def selected (p : SelectPlan) : List (List Passage) :=
  p.items.map (fun i => aliased i.sql i.label) ++
    p.embeddings.map fun e => aliased e.2.render.sql e.1

def groupLines (p : SelectPlan) : List (List Passage) :=
  p.groupBy.map fun key => [.name key]

def orderLines (p : SelectPlan) : List (List Passage) :=
  p.orderBy.map fun e => [.name e.1, .text (" " ++ e.2.sql)]

/-- What stands behind the select list. -/
def tail (p : SelectPlan) : List Passage :=
  .text (" from " ++ p.table.name) :: p.scope.joins.flatMap JoinPlan.passages ++
    .text (conditionText "where" p.filter) :: Passage.clause "group by " p.groupLines ++
    .text (conditionText "having" p.having) :: Passage.clause "order by " p.orderLines ++
    [.text (spaced p.window.sql)]

/-- The select with its quoted names. -/
def passages (p : SelectPlan) : List Passage :=
  .text "select " :: [Passage.text ", "].intercalate p.selected ++ p.tail

theorem exists_aliased {line : List Passage} (h : line ∈ p.selected) :
    ∃ expression label, line = aliased expression label := by
  rcases List.mem_append.1 h with h | h
  · obtain ⟨i, -, rfl⟩ := List.mem_map.1 h
    exact ⟨_, _, rfl⟩
  · obtain ⟨e, -, rfl⟩ := List.mem_map.1 h
    exact ⟨_, _, rfl⟩

theorem join_selected (p : SelectPlan) :
    ", ".intercalate (p.selected.map Passage.join) = p.projection.sql := by
  have hitems : p.items.map (fun i => Passage.join (aliased i.sql i.label)) =
      (p.items.map SelectItem.render).map Fragment.sql := by
    rw [List.map_map]
    refine List.map_congr_left fun i _ => ?_
    rw [join_aliased, Function.comp_apply, SelectItem.render, Fragment.sql_raw]
    rfl
  have hembeddings : p.embeddings.map (fun e => Passage.join (aliased e.2.render.sql e.1)) =
      (p.embeddings.map fun e =>
        e.2.render.appendRaw s!"as {Text.identifier e.1}").map Fragment.sql := by
    rw [List.map_map]
    refine List.map_congr_left fun e _ => ?_
    have halias : s!"as {Text.identifier e.1}" = "as " ++ Text.identifier e.1 := rfl
    rw [join_aliased, Function.comp_apply, halias,
      Fragment.sql_appendRaw_of_ne e.2.render_ne (by simp), ← String.append_assoc]
    simp only [String.append_assoc]
    rfl
  rw [projection, Fragment.sql_join, List.map_append, ← hitems, ← hembeddings, selected,
    List.map_append, List.map_map, List.map_map]
  rfl

theorem begun_foldl_joins (joins : List JoinPlan) {f : Fragment} {s : String} (h : f.Begun s) :
    (joins.foldl (fun f j => f.append j.render) f).Begun
      (s ++ Passage.join (joins.flatMap JoinPlan.passages)) := by
  induction joins generalizing f s with
  | nil => simpa using h
  | cons j joins ih =>
    have hrest := ih (h.append j.render)
    rwa [List.flatMap_cons, Passage.join_append, JoinPlan.join_passages, ← String.append_assoc]

theorem join_groupLines (p : SelectPlan) :
    Passage.join (Passage.clause "group by " p.groupLines) = spaced p.grouping := by
  have hline (key : String) : Passage.join [.name key] = Text.identifier key := by
    simp [Passage.sql]
  exact Passage.join_clause (by decide) hline p.groupBy

theorem join_orderLines (p : SelectPlan) :
    Passage.join (Passage.clause "order by " p.orderLines) = spaced p.ordering := by
  have hline (e : String × Direction) : Passage.join [.name e.1, .text (" " ++ e.2.sql)] =
      s!"{Text.identifier e.1} {e.2.sql}" := by
    rw [Passage.join_cons, Passage.join_cons, Passage.join_nil, String.append_empty, Passage.sql,
      Passage.sql, ← String.append_assoc]
    rfl
  exact Passage.join_clause (by decide) hline p.orderBy

/-- A plan that selects anything is written as its passages. -/
theorem join_passages (hne : p.selected ≠ []) : Passage.join p.passages = p.render.sql := by
  obtain ⟨line, lines, hlines⟩ := List.exists_cons_of_ne_nil hne
  have hprojection : p.projection.sql ≠ "" := by
    rw [← join_selected, hlines]
    refine intercalate_ne_empty ?_ _
    obtain ⟨expression, label, rfl⟩ := exists_aliased (hlines ▸ List.mem_cons_self)
    rw [join_aliased]
    simp
  have hselect := ((Fragment.begun_raw (s := "select") (by decide)).append p.projection).appendRaw
    ("from " ++ p.table.name)
  have hjoined := (begun_foldl_joins p.scope.joins hselect).appendCondition "where" (by decide)
    p.filter
  have hgrouped := (hjoined.appendRaw p.grouping).appendCondition "having" (by decide)
    p.having
  have hordered := (hgrouped.appendRaw p.ordering).append p.window
  refine Eq.trans ?_ hordered.sql.symm
  have hfrom : spaced ("from " ++ p.table.name) = " from " ++ p.table.name := by
    rw [spaced, if_neg (by simp), ← String.append_assoc]
    rfl
  have hblank : spaced p.projection.sql = " " ++ p.projection.sql := if_neg hprojection
  have hbegun : "select" ++ (" " ++ p.projection.sql) = "select " ++ p.projection.sql := by
    rw [← String.append_assoc]
    rfl
  rw [hfrom, hblank, hbegun]
  simp only [passages, tail, List.cons_append, Passage.join_cons, Passage.join_append,
    Passage.join_lines, join_selected, join_groupLines, join_orderLines, Passage.sql,
    Passage.join_nil, String.append_empty, String.append_assoc]

theorem safe_tail (p : SelectPlan) : Passage.Safe p.tail := by
  have hjoins : Passage.Safe (p.scope.joins.flatMap JoinPlan.passages) :=
    Passage.safe_flatMap JoinPlan.safe_passages _
  have hgroup : Passage.Safe (Passage.clause "group by " p.groupLines) := by
    refine Passage.safe_clause _ fun line hline => ?_
    obtain ⟨key, -, rfl⟩ := List.mem_map.1 hline
    exact ⟨Passage.clear_nil, trivial⟩
  have horder : Passage.Safe (Passage.clause "order by " p.orderLines) := by
    refine Passage.safe_clause _ fun line hline => ?_
    obtain ⟨e, -, rfl⟩ := List.mem_map.1 hline
    exact ⟨Passage.clear_text (by simp) Passage.clear_nil, trivial⟩
  exact (((hjoins.text (by simp)).append (hgroup.text (head_conditionText_ne _ _))).append
    (horder.text (head_conditionText_ne _ _))).append
      (Passage.safe_nil.text (head_spaced_ne _))

theorem separated_passages (p : SelectPlan) : Passage.Separated p.passages := by
  have hselected : Passage.Separated ([Passage.text ", "].intercalate p.selected) := by
    refine Passage.separated_lines (by decide) (by decide) fun line hline => ?_
    obtain ⟨expression, label, rfl⟩ := exists_aliased hline
    exact separated_aliased expression label
  exact hselected.append p.safe_tail.separated p.safe_tail.clear

theorem names_passages (p : SelectPlan) : Passage.names p.passages =
    p.labels ++ p.scope.joins.flatMap (fun j => [j.label, j.label]) ++ p.groupBy ++
      p.orderBy.map Prod.fst := by
  have hselected : p.selected.flatMap Passage.names = p.labels := by
    rw [selected, List.flatMap_append, List.flatMap_map, List.flatMap_map]
    simp [aliased, labels, List.map_eq_flatMap]
  have hjoins : Passage.names (p.scope.joins.flatMap JoinPlan.passages) =
      p.scope.joins.flatMap fun j => [j.label, j.label] := by
    rw [Passage.names_flatMap]
    rfl
  have hgroup : p.groupLines.flatMap Passage.names = p.groupBy := by
    rw [groupLines, List.flatMap_map]
    simp
  have horder : p.orderLines.flatMap Passage.names = p.orderBy.map Prod.fst := by
    rw [orderLines, List.flatMap_map]
    simp [List.map_eq_flatMap]
  simp only [passages, tail, List.cons_append, Passage.names_text, Passage.names_append,
    Passage.names_lines, Passage.names_clause, Passage.names_nil, hselected, hjoins, hgroup, horder,
    List.append_nil, List.append_assoc]

theorem Plans.labels_joins {s : Schema} {key : String} {q : Select} (h : p.Plans s key q) :
    p.scope.joins.map JoinPlan.label = q.joins.map Join.label := by
  refine SelectScope.joins_induction
    (P := fun joins scope => scope.joins.map JoinPlan.label = joins.map Join.label) rfl
    (fun before scope j scope' hbefore hjoin => ?_) h.scope
  obtain ⟨table, condition, column, field, -, -, -, -, -, -, rfl⟩ := SelectScope.join_eq_ok.1 hjoin
  rw [SelectScope.joined, List.map_append, List.map_append, hbefore]
  rfl

theorem selected_ne_nil (h : (p.items.isEmpty && p.embeddings.isEmpty) = false) :
    p.selected ≠ [] := by
  rw [selected, Ne, List.append_eq_nil_iff, List.map_eq_nil_iff, List.map_eq_nil_iff]
  rintro ⟨hitems, hembeddings⟩
  rw [hitems, hembeddings] at h
  cases h

end SelectPlan

/-- The names of the statement are the aliases of its plan, the labels of its joins, each in its
alias and in its condition, and the keys of grouping and of ordering. The aliases are the names that
its mapper looks up: it reads nothing else of a row, and cannot do without the texts of the
leaves. -/
structure Select.Quotes (q : Select) (p : SelectPlan) (m : SelectMapper) (c : Compiled) :
    Prop where
  mapper : c.mapper = .select m
  spells : Passage.Spells p.passages c.sql
  names : Passage.names p.passages =
    p.labels ++ q.joins.flatMap (fun j => [j.label, j.label]) ++ q.groupKeys ++ q.orderKeys
  lookups : ∀ name, name ∈ m.lookups ↔ name ∈ p.labels
  reads : ∀ row row', SelectMapper.Agree p.labels row row' → m.mapRow row = m.mapRow row'
  needs : ∀ l ∈ Shape.leaves m.shape, ∀ row j, m.mapRow row = .ok j →
    ∃ v, row.get? l.label = some v

theorem Select.exists_quotes {s : Schema} {key : String} {q : Select} {c : Compiled}
    (h : compile s key q = .ok c) : ∃ p m, SelectPlan.ofSelect s key q = .ok p ∧
      q.Quotes p m c := by
  obtain ⟨p, hp, h⟩ := bind_eq_ok.1 h
  cases h
  obtain ⟨hplans, hempty⟩ := SelectPlan.ofSelect_eq_ok.1 hp
  refine ⟨p, _, hp, rfl, ?_, ?_, fun name => hplans.mem_lookups_iff, ?_, ?_⟩
  · rw [Compiled.sql, ← p.join_passages (p.selected_ne_nil hempty)]
    exact p.separated_passages.spells
  · have hjoins : p.scope.joins.flatMap (fun j => [j.label, j.label]) =
        q.joins.flatMap fun j => [j.label, j.label] := by
      have hlabels := congrArg (List.flatMap fun label => [label, label]) hplans.labels_joins
      rwa [List.flatMap_map, List.flatMap_map] at hlabels
    rw [p.names_passages, hjoins, hplans.groupBy, hplans.orderBy]
    rfl
  · intro row row' hagree
    exact SelectMapper.mapRow_congr fun name hname => hagree name (hplans.mem_lookups_iff.1 hname)
  · intro l hl row j hj
    exact SelectMapper.exists_cell_of_mapRow hj hl

/-! ## Returned columns -/

namespace Returning

/-- The keys of the columns that come back. -/
def keys (returning : Option Returning) : List String :=
  (returning.map Returning.columns).getD []

/-- The columns that come back, under their keys. -/
def passages : Option (List Column) → List Passage
  | none => []
  | some columns =>
    .text " returning " ::
      [Passage.text ", "].intercalate (columns.map fun c => aliased c.name c.key)

variable {returned : Option (List Column)}

theorem join_passages (returned : Option (List Column)) :
    Passage.join (passages returned) = returningText returned := by
  cases returned with
  | none => rfl
  | some columns =>
    have hlines : (columns.map fun c => aliased c.name c.key).map Passage.join =
        columns.map fun c => s!"{c.name} as {Text.identifier c.key}" := by
      rw [List.map_map]
      exact List.map_congr_left fun c _ => join_aliased c.name c.key
    have hblank : returningText (some columns) = " " ++ ("returning " ++
        ", ".intercalate (columns.map fun c => s!"{c.name} as {Text.identifier c.key}")) := rfl
    rw [passages, Passage.join_cons, Passage.join_lines, hlines, hblank, ← String.append_assoc]
    rfl

theorem separated_passages (returned : Option (List Column)) :
    Passage.Separated (passages returned) := by
  cases returned with
  | none => trivial
  | some columns =>
    refine Passage.separated_lines (by decide) (by decide) fun line hline => ?_
    obtain ⟨c, -, rfl⟩ := List.mem_map.1 hline
    exact separated_aliased c.name c.key

theorem mapM_column_of_plan {t : Table} {r : Returning} {columns : List Column}
    (h : plan t r = .ok columns) : r.columns.mapM t.column = .ok columns := by
  rw [plan] at h
  split at h
  · cases h
  · exact h

theorem names_passages {t : Table} {returning : Option Returning}
    (h : returning.mapM (plan t) = .ok returned) :
    Passage.names (passages returned) = keys returning := by
  rcases option_mapM_eq_ok.1 h with ⟨rfl, rfl⟩ | ⟨r, columns, rfl, rfl, hplan⟩
  · rfl
  · have hkeys : keys (some r) = columns.map Column.key :=
      (Table.keys_of_mapM_column (mapM_column_of_plan hplan)).1
    rw [passages, Passage.names_text, Passage.names_lines, List.flatMap_map, hkeys]
    exact List.map_eq_flatMap.symm

theorem exists_column {t : Table} {returning : Option Returning}
    (h : returning.mapM (plan t) = .ok returned) {key : String} (hkey : key ∈ keys returning) :
    ∃ c, t.column? key = some c := by
  rcases option_mapM_eq_ok.1 h with ⟨rfl, rfl⟩ | ⟨r, columns, rfl, rfl, hplan⟩
  · cases hkey
  · obtain ⟨c, -, hc⟩ := exists_of_forall₂ (mapM_eq_ok.1 (mapM_column_of_plan hplan)) hkey
    exact ⟨c, Table.column_eq_ok.1 hc⟩

end Returning

/-- The names behind the statement are the keys of the returned columns, and its mapper finds a
column under each of them. -/
structure Returning.Quotes (returning : Option Returning) (t : Table) (c : Compiled) : Prop where
  mapper : c.mapper = .returning t
  spells : ∃ statement returned, Passage.Spells (.text statement :: passages returned) c.sql ∧
    Passage.names (passages returned) = keys returning
  finds : ∀ key ∈ keys returning, ∃ column, t.column? key = some column

theorem Returning.quotes_of_sql {t : Table} {returning : Option Returning}
    {returned : Option (List Column)} {f : Fragment} {s : String}
    (h : returning.mapM (plan t) = .ok returned) (hsql : f.sql = s ++ returningText returned) :
    Quotes returning t ⟨f, .returning t⟩ where
  mapper := rfl
  spells := by
    have hseparated : Passage.Separated (.text s :: passages returned) :=
      separated_passages returned
    refine ⟨s, returned, ?_, names_passages h⟩
    have hjoin : Passage.join (.text s :: passages returned) = f.sql := by
      rw [Passage.join_cons, join_passages, hsql]
      rfl
    rw [Compiled.sql, ← hjoin]
    exact hseparated.spells
  finds key hkey := exists_column h hkey

section

variable {s : Schema} {key : String} {c : Compiled}

theorem Insert.exists_quotes {q : Insert} (h : compile s key q = .ok c) :
    ∃ t, s.table key = .ok t ∧ Returning.Quotes q.returning t c := by
  obtain ⟨p, hp, h⟩ := bind_eq_ok.1 h
  cases h
  obtain ⟨first, others, hplans⟩ := InsertPlan.ofInsert_eq_ok.1 hp
  exact ⟨p.table, hplans.table,
    Returning.quotes_of_sql hplans.returning (InsertPlan.sql_render hplans)⟩

theorem Update.exists_quotes {q : Update} (h : compile s key q = .ok c) :
    ∃ t, s.table key = .ok t ∧ Returning.Quotes q.returning t c := by
  obtain ⟨p, hp, h⟩ := bind_eq_ok.1 h
  cases h
  have hplans := UpdatePlan.ofUpdate_eq_ok.1 hp
  obtain ⟨sets, -, hwrites⟩ := writes_of_plans hplans
  exact ⟨p.table, hplans.table, Returning.quotes_of_sql hplans.returning hwrites.sql⟩

theorem Delete.exists_quotes {q : Delete} (h : compile s key q = .ok c) :
    ∃ t, s.table key = .ok t ∧ Returning.Quotes q.returning t c := by
  obtain ⟨p, hp, h⟩ := bind_eq_ok.1 h
  cases h
  have hplans := DeletePlan.ofDelete_eq_ok.1 hp
  have hbegun : (deleting p.table).sql ≠ "" := by
    have hsql : (deleting p.table).sql = "delete from " ++ p.table.name := Fragment.sql_raw _
    rw [hsql]
    simp
  exact ⟨p.table, hplans.table, Returning.quotes_of_sql hplans.returning
    (Fragment.sql_clauses hbegun p.filter p.returning)⟩

end

/-! ## Names that are read back -/

/-- Whatever characters a name or a text has, it is read back from between its marks, up to its own
end and not beyond, if no further mark follows; so names that are quoted alike are the same, and so
are texts. No name of a compiled statement has a further mark behind it: the aliases of a select,
the labels of its joins, its keys of grouping and ordering, and the keys of returned columns are
read back as they were given. The aliases are what the mapper looks up in a row. -/
theorem quoted_names_read_back :
    (∀ (name : String) (rest : List Char), rest.head? ≠ some '"' →
      Text.unquote '"' ((Text.identifier name).toList ++ rest) = some (name.toList, rest)) ∧
    (∀ (text : String) (rest : List Char), rest.head? ≠ some '\'' →
      Text.unquote '\'' ((Value.text text).literal.toList ++ rest) = some (text.toList, rest)) ∧
    Function.Injective Text.identifier ∧
    (Function.Injective fun text => (Value.text text).literal) ∧
    (∀ s key q c, Select.compile s key q = .ok c →
      ∃ p m, SelectPlan.ofSelect s key q = .ok p ∧ q.Quotes p m c) ∧
    (∀ s key q c, Insert.compile s key q = .ok c →
      ∃ t, s.table key = .ok t ∧ Returning.Quotes q.returning t c) ∧
    (∀ s key q c, Update.compile s key q = .ok c →
      ∃ t, s.table key = .ok t ∧ Returning.Quotes q.returning t c) ∧
    ∀ s key q c, Delete.compile s key q = .ok c →
      ∃ t, s.table key = .ok t ∧ Returning.Quotes q.returning t c :=
  ⟨fun _ _ => Text.unquote_quoted, fun _ _ => Text.unquote_quoted,
    fun _ _ => Text.quoted_inj.1, fun _ _ => Text.quoted_inj.1,
    fun _ _ _ _ => Select.exists_quotes, fun _ _ _ _ => Insert.exists_quotes,
    fun _ _ _ _ => Update.exists_quotes, fun _ _ _ _ => Delete.exists_quotes⟩

namespace Blog

/-- Posts by their authors, with marks in every name. -/
def selectMarked : Select where
  joins := [⟨.inner, "users", "by\"", some ⟨"id", .eq, "authorId"⟩⟩]
  shape := some [("id", .field "by\".id"), ("nothing", .raw "'\"\"'")]
  groupBy := some ⟨["by\".id"]⟩
  orderBy := some ⟨[("\"", .desc)]⟩

end Blog

theorem quoted_names_read_back_blog :
    Text.unquote '"' ((Text.identifier "\"by\"\"").toList ++ [' ', '"']) =
        some ("\"by\"\"".toList, [' ', '"']) ∧
      Text.unquote '\'' ((Value.text "'it''s'").literal.toList ++ ['"']) =
        some ("'it''s'".toList, ['"']) ∧
      (∃ c p m, Select.compile Blog.schema "posts" Blog.selectMarked = .ok c ∧
        SelectPlan.ofSelect Blog.schema "posts" Blog.selectMarked = .ok p ∧
        Blog.selectMarked.Quotes p m c ∧ Passage.names p.passages =
          ["by\".id", "'\"\"'", "by\"", "by\"", "by\".id", "\""]) ∧
      (∃ c, Insert.compile Blog.schema "posts" (Blog.insertPosts Blog.turnedPost) = .ok c ∧
        Returning.Quotes (some ⟨["id"]⟩) Blog.posts c) ∧
      (∃ c, Update.compile Blog.schema "posts"
          ⟨some (Blog.datedBy 7), some Blog.byAuthors, some ⟨["authorId"]⟩⟩ = .ok c ∧
        Returning.Quotes (some ⟨["authorId"]⟩) Blog.posts c) ∧
      ∃ c, Delete.compile Blog.schema "posts" ⟨none, some ⟨["authorId", "id"]⟩⟩ = .ok c ∧
        Returning.Quotes (some ⟨["authorId", "id"]⟩) Blog.posts c := by
  obtain ⟨hname, htext, -, -, hselect, hinsert, hupdate, hdelete⟩ := quoted_names_read_back
  refine ⟨hname _ _ (by decide), htext _ _ (by decide), ?_, ?_, ?_, ?_⟩
  · obtain ⟨c, hc⟩ : ∃ c, Select.compile Blog.schema "posts" Blog.selectMarked = .ok c := ⟨_, rfl⟩
    obtain ⟨p, hp, hlabels⟩ :
        ∃ p, SelectPlan.ofSelect Blog.schema "posts" Blog.selectMarked = .ok p ∧
          p.labels = ["by\".id", "'\"\"'"] := ⟨_, rfl, by decide⟩
    obtain ⟨p', m, hp', hquotes⟩ := hselect _ _ _ c hc
    cases hp.symm.trans hp'
    exact ⟨c, p, m, hc, hp, hquotes, by rw [hquotes.names, hlabels]; rfl⟩
  · obtain ⟨c, hc⟩ : ∃ c, Insert.compile Blog.schema "posts" (Blog.insertPosts Blog.turnedPost) =
        .ok c := ⟨_, rfl⟩
    obtain ⟨t, ht, hquotes⟩ := hinsert _ _ _ c hc
    obtain rfl : Blog.posts = t := Except.ok.inj ht
    exact ⟨c, hc, hquotes⟩
  · obtain ⟨c, hc⟩ : ∃ c, Update.compile Blog.schema "posts"
        ⟨some (Blog.datedBy 7), some Blog.byAuthors, some ⟨["authorId"]⟩⟩ = .ok c := ⟨_, rfl⟩
    obtain ⟨t, ht, hquotes⟩ := hupdate _ _ _ c hc
    obtain rfl : Blog.posts = t := Except.ok.inj ht
    exact ⟨c, hc, hquotes⟩
  · obtain ⟨c, hc⟩ : ∃ c, Delete.compile Blog.schema "posts"
        ⟨none, some ⟨["authorId", "id"]⟩⟩ = .ok c := ⟨_, rfl⟩
    obtain ⟨t, ht, hquotes⟩ := hdelete _ _ _ c hc
    obtain rfl : Blog.posts = t := Except.ok.inj ht
    exact ⟨c, hc, hquotes⟩

end Tabula
