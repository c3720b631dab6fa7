import Tabula.Proofs.Filter.Refused
import Tabula.Proofs.Select.Placeholders
import Tabula.Proofs.Write.Text

/-!
# What an update writes, and a delete beside it

An update assigns the keys that it is given, each once and in their order, and then finds its rows
by the very text that a delete by the same filter has. Whether the filter is accepted does not
depend on which of the two asks, nor does the error if it is not.
-/

namespace Tabula

/-! ## Fields of a statement that writes -/

/-- A field is a column under its bare key. -/
theorem Fields.resolve?_forWrite {t : Table} {key : String} {field : Field} :
    (forWrite t).resolve? key = some field ↔
      ∃ c ∈ t.columns, c.key = key ∧ field = ⟨c.name, c⟩ := by
  have hkeys : (forWrite t).entries.keys = t.columns.map Column.key := by
    simp [forWrite, Keyed.keys]
  have hresolve : (forWrite t).resolve? key = (forWrite t).entries.get? key := by
    unfold resolve?
    split
    · rename_i h
      exact h.symm
    · rename_i h
      exact h.symm
  rw [hresolve, Keyed.get?_eq_some_iff (hkeys ▸ t.keys_nodup)]
  simp only [forWrite, List.mem_map, Prod.mk.injEq]
  constructor
  · rintro ⟨c, hc, hkey, hfield⟩
    exact ⟨c, hc, hkey, hfield.symm⟩
  · rintro ⟨c, hc, hkey, hfield⟩
    exact ⟨c, hc, hkey, hfield.symm⟩

theorem Leaf.fits_forWrite {t : Table} {l : Leaf} :
    l.Fits (.forWrite t) ↔ ∃ c ∈ t.columns, c.key = l.field ∧ l.Suits c := by
  simp only [Fits, Fields.resolve?_forWrite]
  constructor
  · rintro ⟨_, ⟨c, hc, hkey, rfl⟩, hsuits⟩
    exact ⟨c, hc, hkey, hsuits⟩
  · rintro ⟨c, hc, hkey, hsuits⟩
    exact ⟨_, ⟨c, hc, hkey, rfl⟩, hsuits⟩

theorem Fields.unmarked_forWrite {t : Table} (ht : t.Unmarked) : (forWrite t).Unmarked := by
  intro e he
  obtain ⟨c, hc, rfl⟩ := List.mem_map.1 he
  exact ht.columnName c hc

/-! ## How the statements begin -/

section

variable {t : Table} {assigned : List (Column × Value)}

theorem sql_assignment (c : Column) (v : Value) :
    (UpdatePlan.assignment c v).sql = c.name ++ " = ?" := by
  have hname : (Fragment.raw s!"{c.name} =").sql = c.name ++ " =" := Fragment.sql_raw _
  rw [UpdatePlan.assignment, Fragment.sql_append_of_ne (by rw [hname]; simp) (by simp), hname,
    Fragment.sql_parameter, String.append_assoc, String.append_assoc]
  rfl

theorem sql_updating (h : assigned ≠ []) : (updating t assigned).sql =
    "update " ++ t.name ++ " set " ++
      ", ".intercalate (assigned.map fun a => a.1.name ++ " = ?") := by
  have hbegun : (Fragment.raw s!"update {t.name} set").sql = "update " ++ t.name ++ " set" :=
    Fragment.sql_raw _
  have hassigned : (Fragment.join ", " (assigned.map fun a =>
      UpdatePlan.assignment a.1 a.2)).sql =
      ", ".intercalate (assigned.map fun a => a.1.name ++ " = ?") := by
    rw [Fragment.sql_join, List.map_map]
    congr 2
    exact funext fun a => sql_assignment a.1 a.2
  have hne : ", ".intercalate (assigned.map fun a => a.1.name ++ " = ?") ≠ "" := by
    obtain ⟨a, rest, rfl⟩ := List.exists_cons_of_ne_nil h
    exact intercalate_ne_empty (by simp) _
  have hupdating := Fragment.sql_append_of_ne (f := .raw s!"update {t.name} set")
    (by rw [hbegun]; simp) (hassigned ▸ hne)
  rw [hbegun, hassigned] at hupdating
  refine hupdating.trans ?_
  simp only [String.append_assoc]
  rfl

theorem params_updating : (updating t assigned).params = assigned.map Prod.snd := by
  simp [updating, UpdatePlan.assignment, List.flatMap_map, ← List.map_eq_flatMap]

theorem plain_updating (ht : t.Unmarked) (h : ∀ a ∈ assigned, a.1 ∈ t.columns) :
    (updating t assigned).Plain := by
  refine (Fragment.plain_raw.2 (by simp +decide [ht.name])).append
    (Fragment.plain_join (by decide) fun f hf => ?_)
  obtain ⟨a, ha, rfl⟩ := List.mem_map.1 hf
  exact (Fragment.plain_raw.2 (by simp +decide [ht.columnName a.1 (h a ha)])).append
    (Fragment.plain_parameter a.2)

end

theorem Returning.plain_appendReturning {t : Table} (ht : t.Unmarked) {given : Option Returning}
    {returned : Option (List Column)} (h : given.mapM (plan t) = .ok returned) {f : Fragment}
    (hf : f.Plain) : (f.appendReturning returned).Plain := by
  rcases option_mapM_eq_ok.1 h with ⟨-, rfl⟩ | ⟨r, columns, -, rfl, hplan⟩
  · exact hf
  · rw [plan] at hplan
    split at hplan
    · cases hplan
    obtain ⟨-, hcolumns⟩ := Table.keys_of_mapM_column hplan
    refine hf.appendRaw (unmarked_append.2 ⟨by decide, unmarked_intercalate (by decide) ?_⟩)
    intro text htext
    obtain ⟨c, hc, rfl⟩ := List.mem_map.1 htext
    simp +decide [ht.columnName c (hcolumns c hc), ht.columnKey c (hcolumns c hc)]

/-! ## What an update writes -/

namespace Update

/-- The update assigns each key that it is given, once and in their order, the value as the column
of the key stores it, and nothing else. -/
structure Writes (t : Table) (sets : Sets) (assigned : List (Column × Value)) (condition : String)
    (operands : List Value) (returned : Option (List Column)) (c : Compiled) : Prop where
  once : sets.object.members.keys.Nodup
  assigns : List.Forall₂ (fun m a => t.column m.1 = .ok a.1 ∧ a.1.encode m.2 = .ok a.2)
    sets.object.members assigned
  sql : c.sql = "update " ++ t.name ++ " set " ++
    ", ".intercalate (assigned.map fun a => a.1.name ++ " = ?") ++ condition ++
    returningText returned
  params : c.params = assigned.map Prod.snd ++ operands

variable {s : Schema} {key : String} {q : Update} {p : UpdatePlan}

theorem exists_sets (h : p.Plans s key q) :
    ∃ sets, q.sets = some sets ∧ List.Forall₂
      (fun m a => p.table.column m.1 = .ok a.1 ∧ a.1.encode m.2 = .ok a.2)
      sets.object.members p.sets ∧ p.sets ≠ [] := by
  have hgiven := h.given
  have hsets := h.sets
  cases hq : q.sets with
  | none =>
    rw [hq] at hgiven
    cases hgiven
  | some sets =>
    rw [hq] at hgiven hsets
    have hassigns := mapM_eq_ok.1 hsets
    refine ⟨sets, rfl, hassigns.imp ?_, ?_⟩
    · intro m a ha
      obtain ⟨c, hc, ha⟩ := bind_eq_ok.1 ha
      obtain ⟨v, hv, ha⟩ := bind_eq_ok.1 ha
      cases ha
      exact ⟨hc, hv⟩
    · rintro hnil
      have hlength := hassigns.length_eq
      rw [hnil, List.length_nil, List.length_eq_zero_iff] at hlength
      simp only [Option.map_some, Option.getD_some] at hgiven hlength
      rw [hlength] at hgiven
      cases hgiven

theorem render_eq (p : UpdatePlan) : p.render =
    ((updating p.table p.sets).appendCondition "where" p.filter).appendReturning p.returning :=
  rfl

theorem params_render (p : UpdatePlan) : p.render.params =
    p.sets.map Prod.snd ++ (p.filter.map fun f => f.render.params).getD [] := by
  rw [render_eq, Fragment.params_appendReturning, Fragment.params_appendCondition, params_updating]

theorem writes_of_plans (h : p.Plans s key q) : ∃ sets, q.sets = some sets ∧
    Writes p.table sets p.sets (conditionText "where" p.filter)
      ((p.filter.map fun f => f.render.params).getD []) p.returning
      ⟨p.render, .returning p.table⟩ := by
  obtain ⟨sets, hq, hassigns, hne⟩ := exists_sets h
  refine ⟨sets, hq, sets.object.distinct, hassigns, ?_, params_render p⟩
  have hbegun : (updating p.table p.sets).sql ≠ "" := by
    rw [sql_updating hne]
    simp
  rw [Compiled.sql, render_eq, Fragment.sql_clauses hbegun, sql_updating hne]

theorem plain_render (h : p.Plans s key q) (ht : p.table.Unmarked) : p.render.Plain := by
  obtain ⟨sets, -, hassigns, -⟩ := exists_sets h
  have hcolumns : ∀ a ∈ p.sets, a.1 ∈ p.table.columns := by
    intro a ha
    obtain ⟨m, -, hm, -⟩ := exists_of_forall₂ hassigns.flip ha
    exact (Table.column_eq_ok_iff.1 hm).1
  refine Returning.plain_appendReturning ht h.returning
    ((plain_updating ht hcolumns).appendCondition (by decide) fun predicate hpredicate => ?_)
  rcases option_mapM_eq_ok.1 h.filter with ⟨-, hnone⟩ | ⟨f, _, -, hsome, hf⟩
  · cases hnone.symm.trans hpredicate
  · cases hsome.symm.trans hpredicate
    exact Predicate.plain_render_of_ofFilter (Fields.unmarked_forWrite ht) hf

end Update

/-! ## A delete by the same filter -/

section

variable {s : Schema} {key : String} {t : Table} {sets : Sets} {f : Filter} {e : Error}

theorem Delete.exists_of_plan {filter : Option Filter} {found : Option Predicate}
    (ht : s.table key = .ok t)
    (hfilter : filter.mapM (Predicate.ofFilter (.forWrite t)) = .ok found)
    {returning : Option Returning} {returned : Option (List Column)}
    (hreturning : returning.mapM (Returning.plan t) = .ok returned) :
    ∃ d, compile s key ⟨filter, returning⟩ = .ok d ∧
      d.sql = "delete from " ++ t.name ++ conditionText "where" found ++ returningText returned ∧
      d.params = (found.map fun p => p.render.params).getD [] := by
  have hplan : DeletePlan.ofDelete s key ⟨filter, returning⟩ = .ok ⟨t, found, returned⟩ :=
    DeletePlan.ofDelete_eq_ok.2 ⟨ht, hfilter, hreturning⟩
  have hbegun : (deleting t).sql = "delete from " ++ t.name := Fragment.sql_raw _
  have hclauses := Fragment.sql_clauses (f := deleting t) (by rw [hbegun]; simp) found returned
  refine ⟨_, bind_eq_ok.2 ⟨_, hplan, rfl⟩, hbegun ▸ hclauses, ?_⟩
  rw [Compiled.params, DeletePlan.render, Fragment.params_appendReturning,
    Fragment.params_appendCondition, Fragment.params_raw, List.nil_append]

/-- What a delete without returned columns is made of. -/
theorem Delete.compile_eq (ht : s.table key = .ok t) : compile s key ⟨some f, none⟩ =
    (fun p => ⟨(DeletePlan.mk t (some p) none).render, .returning t⟩) <$>
      Predicate.ofFilter (.forWrite t) f := by
  simp only [compile, DeletePlan.ofDelete, ht, ok_bind]
  cases hf : Predicate.ofFilter (.forWrite t) f <;> simp [hf]

/-- Values that encode leave only the filter to fail. -/
theorem Update.compile_eq {assigned : List (Column × Value)} (ht : s.table key = .ok t)
    (hsome : sets.object.members ≠ [])
    (hassigned : (sets.object.members.mapM fun m => do
      let c ← t.column m.1
      return (c, ← c.encode m.2)) = .ok assigned) :
    compile s key ⟨some sets, some f, none⟩ =
      (fun p => ⟨(UpdatePlan.mk t assigned (some p) none).render, .returning t⟩) <$>
        Predicate.ofFilter (.forWrite t) f := by
  simp only [compile, UpdatePlan.ofUpdate, ht, ok_bind, Option.map_some, Option.getD_some]
  rw [if_neg (by simpa using hsome), hassigned]
  cases hf : Predicate.ofFilter (.forWrite t) f <;> simp [hf]

theorem Delete.exists_compile (ht : s.table key = .ok t) :
    (∃ d, compile s key ⟨some f, none⟩ = .ok d) ↔
      ∀ l ∈ f.leaves, ∃ c ∈ t.columns, c.key = l.field ∧ l.Suits c := by
  rw [compile_eq ht, exists_map_eq_ok, Predicate.ofFilter_eq_ok]
  exact forall₂_congr fun l _ => Leaf.fits_forWrite

/-- An update without returned columns fails as the delete does once its values encode. -/
theorem Update.exists_compile_eq (ht : s.table key = .ok t) (hsome : sets.object.members ≠ [])
    (hsets : ∀ m ∈ sets.object.members, ∃ c v, t.column m.1 = .ok c ∧ c.encode m.2 = .ok v) :
    ∃ render : Predicate → Compiled, compile s key ⟨some sets, some f, none⟩ =
      render <$> Predicate.ofFilter (.forWrite t) f := by
  obtain ⟨assigned, hassigned⟩ := (exists_mapM_eq_ok (f := fun m : String × Json => do
      let c ← t.column m.1
      return (c, ← c.encode m.2))).2 fun m hm => by
    obtain ⟨c, v, hc, hv⟩ := hsets m hm
    exact ⟨(c, v), by rw [hc, ok_bind, hv, ok_bind, pure_eq_ok]⟩
  exact ⟨_, compile_eq ht hsome hassigned⟩

/-- An update assigns the keys that it is given, each once and in their order, to their columns and
nothing else; its parameters are what the columns store and then the operands of the filter, and the
`k`-th question mark is the placeholder of the `k`-th parameter. A delete by the same filter has the
same condition and its operands. If the values of an update encode, it is accepted if and only if
the delete is, that is if each leaf fits a column of the table, and fails with the same error else. -/
theorem Update.writes_beside_delete (s : Schema) (key : String) :
    (∀ q c, compile s key q = .ok c → ∃ t sets assigned filter operands returned,
      s.table key = .ok t ∧ q.sets = some sets ∧
      q.filter.mapM (Predicate.ofFilter (.forWrite t)) = .ok filter ∧
      q.filter.mapM (Filter.values (.forWrite t)) = .ok operands ∧
      q.returning.mapM (Returning.plan t) = .ok returned ∧
      Writes t sets assigned (conditionText "where" filter) (operands.getD []) returned c ∧
      (t.Unmarked → c.sql.toList.count '?' = c.params.length ∧
        ∀ k (hk : k < c.params.length), c.fragment.PlaceholderAt k c.params[k]) ∧
      ∀ returning returned, returning.mapM (Returning.plan t) = .ok returned →
        ∃ d, Delete.compile s key ⟨q.filter, returning⟩ = .ok d ∧
          d.sql = "delete from " ++ t.name ++ conditionText "where" filter ++
            returningText returned ∧
          d.params = operands.getD []) ∧
    ∀ t sets f, s.table key = .ok t → sets.object.members ≠ [] →
      (∀ m ∈ sets.object.members, ∃ c v, t.column m.1 = .ok c ∧ c.encode m.2 = .ok v) →
      ((∃ c, compile s key ⟨some sets, some f, none⟩ = .ok c) ↔
        ∃ d, Delete.compile s key ⟨some f, none⟩ = .ok d) ∧
      ((∃ d, Delete.compile s key ⟨some f, none⟩ = .ok d) ↔
        ∀ l ∈ f.leaves, ∃ c ∈ t.columns, c.key = l.field ∧ l.Suits c) ∧
      ∀ e, compile s key ⟨some sets, some f, none⟩ = .error e ↔
        Delete.compile s key ⟨some f, none⟩ = .error e := by
  constructor
  · intro q c h
    obtain ⟨p, hp, h⟩ := bind_eq_ok.1 h
    cases h
    have hplans := UpdatePlan.ofUpdate_eq_ok.1 hp
    obtain ⟨sets, hq, hwrites⟩ := writes_of_plans hplans
    exact ⟨p.table, sets, p.sets, p.filter, _, p.returning, hplans.table, hq, hplans.filter,
      SelectPlan.values_of_mapM_ofFilter hplans.filter, hplans.returning, hwrites,
      fun ht => ⟨(plain_render hplans ht).count_sql, fun k hk =>
        (plain_render hplans ht).placeholderAt hk⟩,
      fun _ _ => Delete.exists_of_plan hplans.table hplans.filter⟩
  · intro t sets f ht hsome hsets
    obtain ⟨render, hcompile⟩ := exists_compile_eq (f := f) ht hsome hsets
    refine ⟨?_, Delete.exists_compile ht, fun e => ?_⟩
    · rw [hcompile, Delete.compile_eq ht, exists_map_eq_ok, exists_map_eq_ok]
    · rw [hcompile, Delete.compile_eq ht, map_eq_error, map_eq_error]

end

namespace Blog

def datedBy (author : Int64) : Sets :=
  ⟨.ofMembers [("createdAt", .str "1970-01-01T00:00:01.000Z"), ("authorId", .ofInt64 author)]⟩

/-- No post has an author `true`, and `authorId` is no column of its own name. -/
def unnumbered : Filter :=
  .group .or [.compare "authorId" .eq (.bool true), .compare "author_id" .ne .null]

end Blog

theorem Update.writes_beside_delete_blog :
    (∃ c d, compile Blog.schema "posts"
        ⟨some (Blog.datedBy 7), some Blog.byAuthors, some ⟨["id"]⟩⟩ = .ok c ∧
      Delete.compile Blog.schema "posts" ⟨some Blog.byAuthors, none⟩ = .ok d ∧
      c.params = [.integer 1000, .integer 7] ++ d.params ∧
      c.sql.toList.count '?' = c.params.length) ∧
    (¬∃ c, compile Blog.schema "posts" ⟨some (Blog.datedBy 7), some Blog.unnumbered, none⟩ =
        .ok c) ∧
      Delete.compile Blog.schema "posts" ⟨some Blog.unnumbered, none⟩ =
        .error (.columnNotFound "author_id") := by
  obtain ⟨hwrites, hsame⟩ := writes_beside_delete Blog.schema "posts"
  constructor
  · obtain ⟨c, hc, hassigned⟩ : ∃ c, compile Blog.schema "posts"
        ⟨some (Blog.datedBy 7), some Blog.byAuthors, some ⟨["id"]⟩⟩ = .ok c ∧
        c.params.take 2 = [.integer 1000, .integer 7] := ⟨_, rfl, by decide⟩
    obtain ⟨t, sets, assigned, filter, operands, returned, ht, hsets, -, -, -, hw, hplaces,
      hdelete⟩ := hwrites _ c hc
    obtain rfl : Blog.posts = t := Except.ok.inj ht
    obtain rfl : Blog.datedBy 7 = sets := Option.some.inj hsets
    obtain ⟨d, hd, -, hparams⟩ := hdelete none none rfl
    have hlength : (assigned.map Prod.snd).length = 2 := by
      rw [List.length_map, ← hw.assigns.length_eq]
      rfl
    have hvalues : assigned.map Prod.snd = [.integer 1000, .integer 7] := by
      rw [← hassigned, hw.params, ← hlength, List.take_left]
    exact ⟨c, d, hc, hd, by rw [hw.params, hvalues, hparams], (hplaces (by decide)).1⟩
  · have hencodes : ∀ m ∈ (Blog.datedBy 7).object.members, ∃ c v,
        Blog.posts.column m.1 = .ok c ∧ c.encode m.2 = .ok v := by
      have hmembers : (Blog.datedBy 7).object.members =
        [("createdAt", .str "1970-01-01T00:00:01.000Z"), ("authorId", .ofInt64 7)] := rfl
      rw [hmembers, List.forall_mem_cons, List.forall_mem_singleton]
      exact ⟨⟨_, _, rfl, rfl⟩, _, _, rfl, rfl⟩
    obtain ⟨hiff, -, herror⟩ := hsame Blog.posts (Blog.datedBy 7) Blog.unnumbered rfl
      (by simp [Blog.datedBy, Json.Object.ofMembers, Keyed.putAll, Keyed.put]) hencodes
    have hrefused := (herror (.columnNotFound "author_id")).1 rfl
    refine ⟨fun hc => ?_, hrefused⟩
    obtain ⟨d, hd⟩ := hiff.1 hc
    cases hrefused.symm.trans hd

end Tabula
