import Tabula.Proofs.Filter.Mentions
import Tabula.Proofs.Select.Checks

/-!
# Filters that are refused and filters that say nothing

A filter is refused for the first of its leaves that does not fit: its field is unknown, or the
column of the field cannot take its operand. How the leaves are grouped does not matter, nor do
groups without leaves. A filter that is not refused has no text if and only if it has no leaf, and a
statement is then the one without a filter.
-/

namespace Tabula

/-! ## Leaves that fit -/

namespace Leaf

/-- A column can be compared with the operand. -/
inductive Suits (c : Column) : Leaf → Prop
  | null {field : String} {operator : Operator} (h : operator = .eq ∨ operator = .ne) :
    Suits c ⟨field, operator, .null⟩
  | items {field : String} {operator : Operator} {items : List Json} (hset : operator.isSet = true)
    (hitems : ∀ j ∈ items, ∃ v, c.encode j = .ok v) : Suits c ⟨field, operator, .arr items⟩
  | value {field : String} {operator : Operator} {operand : Json} (hset : operator.isSet = false)
    (hvalue : ∃ v, c.encode operand = .ok v) : Suits c ⟨field, operator, operand⟩

def Fits (fields : Fields) (l : Leaf) : Prop :=
  ∃ field, fields.resolve? l.field = some field ∧ l.Suits field.column

/-- The leaf does not fit, for the reason that the error gives: that of the first operand that the
column cannot take if there are several. -/
inductive Offends (fields : Fields) (l : Leaf) : Error → Prop
  | unknown (h : fields.resolve? l.field = none) : Offends fields l (.columnNotFound l.field)
  | single {field : Field} (h : fields.resolve? l.field = some field)
    (hset : l.operator.isSet = true) (hsingle : l.operand.isArray = false) :
    Offends fields l (.invalidStatement (.needsArray l.field l.operator l.operand))
  | operand {field : Field} {before after : List Json} {j : Json} {e : Error}
    (h : fields.resolve? l.field = some field)
    (harray : l.operator.isSet = true → l.operand.isArray = true)
    (hoperands : l.operands = before ++ j :: after)
    (hbefore : ∀ j' ∈ before, ∃ v, field.column.encode j' = .ok v)
    (hj : field.column.encode j = .error e) : Offends fields l e

variable {fields : Fields} {l : Leaf} {e : Error}

theorem suits_iff {c : Column} : l.Suits c ↔
    (l.operator.isSet = true → l.operand.isArray = true) ∧
      ∀ j ∈ l.operands, ∃ v, c.encode j = .ok v := by
  constructor
  · intro h
    cases h with
    | null h => rcases h with rfl | rfl <;> simp [Operator.isSet, operands]
    | items hset hitems =>
      rw [operands_arr hset]
      exact ⟨fun _ => rfl, hitems⟩
    | @value _ operator operand hset hvalue =>
      cases operator <;> cases operand <;> simp_all [Operator.isSet, operands]
  · obtain ⟨field, operator, operand⟩ := l
    rintro ⟨harray, hoperands⟩
    cases hset : operator.isSet with
    | true =>
      cases operand with
      | arr items =>
        rw [operands_arr hset] at hoperands
        exact .items hset hoperands
      | _ => cases harray hset
    | false =>
      by_cases hnull : operand = .null ∧ (operator = .eq ∨ operator = .ne)
      · obtain ⟨rfl, h⟩ := hnull
        exact .null h
      · refine .value hset (hoperands operand ?_)
        cases operator <;> cases operand <;> simp_all [Operator.isSet, operands]

theorem condition_eq_ok : (∃ c, l.condition fields = .ok c) ↔ l.Fits fields := by
  rw [exists_ok_iff, map_unit_condition, forM_eq_ok, Fits, Select.leafChecks]
  cases hfield : fields.resolve? l.field with
  | none => simp
  | some field =>
    simp only [Option.map_some, Option.some.injEq, exists_eq_left', suits_iff,
      List.forall_mem_cons, List.forall_mem_map, id, exists_ok_iff]
    refine and_congr_left' ?_
    unfold Check.that
    split <;> simp_all

theorem condition_eq_error : l.condition fields = .error e ↔ l.Offends fields e := by
  rw [← map_eq_error (f := fun _ => ()), map_unit_condition, Select.leafChecks]
  cases hfield : fields.resolve? l.field with
  | none =>
    constructor
    · intro h
      cases h
      exact .unknown hfield
    · intro h
      cases h with
      | unknown _ => rfl
      | single h _ _ | operand h _ _ _ _ => cases hfield.symm.trans h
  | some field =>
    simp only [Option.map_some]
    rw [List.forM_eq_forM, List.forM_cons, ← List.forM_eq_forM, forM_map_id]
    -- Whether a set is given as an array is settled before any operand is encoded.
    by_cases harray : l.operator.isSet = true → l.operand.isArray = true
    · rw [Check.that_of harray, id, ok_bind, forM_eq_error]
      constructor
      · rintro ⟨before, j, after, hoperands, hbefore, hj⟩
        exact .operand hfield harray hoperands
          (fun j' hj' => exists_ok_iff.2 (hbefore j' hj')) (map_eq_error.1 hj)
      · intro h
        cases h with
        | unknown h => cases hfield.symm.trans h
        | single _ hset hsingle => simp [harray hset] at hsingle
        | operand h _ hoperands hbefore hj =>
          cases hfield.symm.trans h
          exact ⟨_, _, _, hoperands, fun j' hj' => exists_ok_iff.1 (hbefore j' hj'),
            map_eq_error.2 hj⟩
    · rw [Check.that_of_not harray, id, error_bind]
      obtain ⟨hset, hsingle⟩ := Classical.not_imp.1 harray
      constructor
      · intro h
        cases h
        exact .single hfield hset (Bool.eq_false_iff.2 hsingle)
      · intro h
        cases h with
        | unknown h => cases hfield.symm.trans h
        | single _ _ _ => rfl
        | operand _ h _ _ _ => exact absurd h harray

end Leaf

/-! ## Statements with and without a filter -/

/-- The statement with the filter is the statement without it, with the condition behind its
beginning if the filter has a leaf. -/
structure Filter.Narrows (f : Filter) (fields : Fields) (start bare narrowed : Fragment) :
    Prop where
  narrows : f.leaves ≠ [] → ∃ p, ∃ rest : List Fragment, Predicate.ofFilter fields f = .ok p ∧
    p.render.sql ≠ "" ∧ bare = rest.foldl .append start ∧
      narrowed = rest.foldl .append ((start.appendRaw "where").append p.render)
  keeps : f.leaves = [] → narrowed = bare

/-- A select as far as its joins. -/
def SelectPlan.joined (p : SelectPlan) : Fragment :=
  p.scope.joins.foldl (fun f j => f.append j.render)
    (((Fragment.raw "select").append p.projection).appendRaw s!"from {p.table.name}")

namespace Fragment

/-- A condition is its keyword and its text, or nothing. -/
theorem exists_appendCondition (keyword : String) (p : Option Predicate) :
    ∃ parts : List Fragment,
      ∀ f : Fragment, f.appendCondition keyword p = parts.foldl append f := by
  cases p with
  | none => exact ⟨[], fun _ => rfl⟩
  | some p =>
    by_cases hempty : p.render.isEmpty = true
    · exact ⟨[], fun f => by simp [appendCondition, hempty]⟩
    · exact ⟨[raw keyword, p.render], fun f => by simp [appendCondition, hempty, appendRaw]⟩

theorem exists_appendReturning (returning : Option (List Column)) :
    ∃ parts : List Fragment,
      ∀ f : Fragment, f.appendReturning returning = parts.foldl append f := by
  cases returning with
  | none => exact ⟨[], fun _ => rfl⟩
  | some columns => exact ⟨[raw (Returning.render columns)], fun _ => rfl⟩

end Fragment

/-- Behind the joins of a select stands its filter, and what follows does not depend on it. -/
theorem SelectPlan.exists_render (p : SelectPlan) : ∃ parts : List Fragment,
    p.render = parts.foldl .append (p.joined.appendCondition "where" p.filter) ∧
      ({ p with filter := none } : SelectPlan).render = parts.foldl .append p.joined := by
  obtain ⟨having, hhaving⟩ := Fragment.exists_appendCondition "having" p.having
  refine ⟨.raw p.grouping :: (having ++ [.raw p.ordering, p.window]), ?_, ?_⟩
  · rw [List.foldl_cons, List.foldl_append, ← hhaving]
    rfl
  · rw [List.foldl_cons, List.foldl_append, ← hhaving]
    rfl

namespace Predicate

variable {fields : Fields} {f : Filter} {p : Predicate}

theorem ofFilter_eq_ok :
    (∃ p, ofFilter fields f = .ok p) ↔ ∀ l ∈ f.leaves, l.Fits fields := by
  rw [exists_ok_iff, map_unit_ofFilter, forM_eq_ok]
  exact forall₂_congr fun l _ => exists_ok_iff.symm.trans Leaf.condition_eq_ok

theorem ofFilter_eq_error {e : Error} : ofFilter fields f = .error e ↔
    ∃ before l after, f.leaves = before ++ l :: after ∧ (∀ l' ∈ before, l'.Fits fields) ∧
      l.Offends fields e := by
  rw [← map_eq_error (f := fun _ => ()), map_unit_ofFilter, forM_eq_error]
  simp only [← exists_ok_iff, Leaf.condition_eq_ok, map_eq_error, Leaf.condition_eq_error]

theorem render_eq_empty_iff (h : ofFilter fields f = .ok p) :
    p.render.sql = "" ↔ f.isEmpty = true := by
  have hlength := (mapM_eq_ok.1 (mapM_leaves h)).length_eq
  rw [← Fragment.isEmpty_iff, isEmpty_render_iff h, Filter.isEmpty_iff, ← List.length_eq_zero_iff,
    ← hlength, List.length_eq_zero_iff]

theorem narrows_appendCondition (h : ofFilter fields f = .ok p) (start : Fragment)
    (rest : List Fragment) :
    f.Narrows fields start (rest.foldl .append start)
      (rest.foldl .append (start.appendCondition "where" (some p))) := by
  have hempty := (Fragment.isEmpty_iff.trans (render_eq_empty_iff h)).trans f.isEmpty_iff
  constructor
  · intro hleaves
    have hrender := mt hempty.1 hleaves
    refine ⟨p, rest, h, mt Fragment.isEmpty_iff.2 hrender, rfl, ?_⟩
    simp [Fragment.appendCondition, hrender]
  · intro hleaves
    simp [Fragment.appendCondition, hempty.2 hleaves]

end Predicate

namespace Filter

variable {f : Filter} {s : Schema} {key : String} {c : Compiled}

theorem narrows_select {q : Select} (hq : q.filter = some f)
    (h : Select.compile s key q = .ok c) :
    ∃ p bare, SelectPlan.ofSelect s key q = .ok p ∧
      Select.compile s key { q with filter := none } = .ok bare ∧
      f.Narrows p.scope.fields p.joined bare.fragment c.fragment := by
  obtain ⟨p, hp, h⟩ := bind_eq_ok.1 h
  cases h
  obtain ⟨hplans, hempty⟩ := SelectPlan.ofSelect_eq_ok.1 hp
  have hbare : SelectPlan.ofSelect s key { q with filter := none } =
      .ok { p with filter := none } :=
    SelectPlan.ofSelect_eq_ok.2 ⟨{ hplans with filter := rfl }, hempty⟩
  have hfilter := hplans.filter
  rw [hq] at hfilter
  obtain ⟨predicate, hpredicate, hfilter⟩ := map_eq_ok.1 hfilter
  obtain ⟨rest, hrender, hrenderBare⟩ := p.exists_render
  refine ⟨p, _, hp, bind_eq_ok.2 ⟨_, hbare, rfl⟩, ?_⟩
  dsimp only
  rw [hrenderBare, hrender, ← hfilter]
  exact Predicate.narrows_appendCondition hpredicate p.joined rest

theorem narrows_update {sets : Option Sets} {returning : Option Returning}
    (h : Update.compile s key ⟨sets, some f, returning⟩ = .ok c) :
    ∃ t assigned bare, s.table key = .ok t ∧
      Update.compile s key ⟨sets, none, returning⟩ = .ok bare ∧
      f.Narrows (.forWrite t) (updating t assigned) bare.fragment c.fragment := by
  obtain ⟨p, hp, h⟩ := bind_eq_ok.1 h
  cases h
  have hplans := UpdatePlan.ofUpdate_eq_ok.1 hp
  have hbare : UpdatePlan.ofUpdate s key ⟨sets, none, returning⟩ = .ok { p with filter := none } :=
    UpdatePlan.ofUpdate_eq_ok.2 { hplans with filter := rfl }
  obtain ⟨predicate, hpredicate, hfilter⟩ := map_eq_ok.1 hplans.filter
  obtain ⟨rest, hrest⟩ := Fragment.exists_appendReturning p.returning
  refine ⟨p.table, p.sets, _, hplans.table, bind_eq_ok.2 ⟨_, hbare, rfl⟩, ?_⟩
  dsimp only
  rw [UpdatePlan.render, UpdatePlan.render, hrest, hrest, ← hfilter]
  exact Predicate.narrows_appendCondition hpredicate _ rest

theorem narrows_delete {returning : Option Returning}
    (h : Delete.compile s key ⟨some f, returning⟩ = .ok c) :
    ∃ t bare, s.table key = .ok t ∧ Delete.compile s key ⟨none, returning⟩ = .ok bare ∧
      f.Narrows (.forWrite t) (deleting t) bare.fragment c.fragment := by
  obtain ⟨p, hp, h⟩ := bind_eq_ok.1 h
  cases h
  have hplans := DeletePlan.ofDelete_eq_ok.1 hp
  have hbare : DeletePlan.ofDelete s key ⟨none, returning⟩ = .ok { p with filter := none } :=
    DeletePlan.ofDelete_eq_ok.2 { hplans with filter := rfl }
  obtain ⟨predicate, hpredicate, hfilter⟩ := map_eq_ok.1 hplans.filter
  obtain ⟨rest, hrest⟩ := Fragment.exists_appendReturning p.returning
  refine ⟨p.table, _, hplans.table, bind_eq_ok.2 ⟨_, hbare, rfl⟩, ?_⟩
  dsimp only
  rw [DeletePlan.render, DeletePlan.render, hrest, hrest, ← hfilter]
  exact Predicate.narrows_appendCondition hpredicate _ rest

/-- A filter is rendered if and only if each of its leaves fits, and the first one that does not
decides the error. It has no text if and only if it has no leaf, and then no parameter either; so a
select, an update and a delete have a where clause if and only if the filter has a leaf. -/
theorem renders_iff_fits (f : Filter) :
    (∀ fields, ((∃ p, Predicate.ofFilter fields f = .ok p) ↔ ∀ l ∈ f.leaves, l.Fits fields) ∧
      (∀ e, Predicate.ofFilter fields f = .error e ↔ ∃ before l after,
        f.leaves = before ++ l :: after ∧ (∀ l' ∈ before, l'.Fits fields) ∧ l.Offends fields e) ∧
      ∀ p, Predicate.ofFilter fields f = .ok p →
        (p.render.sql = "" ↔ f.isEmpty = true) ∧ (f.isEmpty = true → p.render.params = [])) ∧
    (f.isEmpty = true ↔ f.leaves = []) ∧
    (∀ s key q c, q.filter = some f → Select.compile s key q = .ok c →
      ∃ p bare, SelectPlan.ofSelect s key q = .ok p ∧
        Select.compile s key { q with filter := none } = .ok bare ∧
        f.Narrows p.scope.fields p.joined bare.fragment c.fragment) ∧
    (∀ s key sets returning c, Update.compile s key ⟨sets, some f, returning⟩ = .ok c →
      ∃ t assigned bare, s.table key = .ok t ∧
        Update.compile s key ⟨sets, none, returning⟩ = .ok bare ∧
        f.Narrows (.forWrite t) (updating t assigned) bare.fragment c.fragment) ∧
    ∀ s key returning c, Delete.compile s key ⟨some f, returning⟩ = .ok c →
      ∃ t bare, s.table key = .ok t ∧ Delete.compile s key ⟨none, returning⟩ = .ok bare ∧
        f.Narrows (.forWrite t) (deleting t) bare.fragment c.fragment := by
  refine ⟨fun fields => ⟨Predicate.ofFilter_eq_ok, fun e => Predicate.ofFilter_eq_error,
    fun p hp => ?_⟩, f.isEmpty_iff, fun _ _ _ _ => narrows_select,
    fun _ _ _ _ _ => narrows_update, fun _ _ _ _ => narrows_delete⟩
  have hrender := Predicate.render_eq_empty_iff hp
  exact ⟨hrender, fun hempty =>
    Fragment.params_of_isEmpty (Fragment.isEmpty_iff.2 (hrender.2 hempty))⟩

end Filter

namespace Blog

/-- An empty group, a leaf that fits, one without an array and one without a column. -/
def misfits : Filter :=
  .group .and [.group .or [.group .and []], .compare "id" .eq .null,
    .group .or [.compare "authorId" .isIn (.ofInt64 1), .compare "author" .ne .null]]

end Blog

theorem Filter.renders_iff_fits_blog :
    Predicate.ofFilter (.forWrite Blog.posts) Blog.misfits =
        .error (.invalidStatement (.needsArray "authorId" .isIn (.ofInt64 1))) ∧
      (∃ c p bare, Select.compile Blog.schema "posts" { filter := some Blog.byAuthors } = .ok c ∧
        SelectPlan.ofSelect Blog.schema "posts" { filter := some Blog.byAuthors } = .ok p ∧
        Select.compile Blog.schema "posts" {} = .ok bare ∧
        Blog.byAuthors.Narrows p.scope.fields p.joined bare.fragment c.fragment) ∧
      ∃ c bare, Delete.compile Blog.schema "posts" ⟨some (.group .or [.empty]), none⟩ = .ok c ∧
        Delete.compile Blog.schema "posts" ⟨none, none⟩ = .ok bare ∧
        c.fragment = bare.fragment := by
  refine ⟨?_, ?_, ?_⟩
  · refine (((renders_iff_fits Blog.misfits).1 _).2.1 _).2
      ⟨[⟨"id", .eq, .null⟩], ⟨"authorId", .isIn, .ofInt64 1⟩, [⟨"author", .ne, .null⟩], rfl, ?_,
        .single rfl rfl rfl⟩
    intro l hl
    rw [List.mem_singleton.1 hl]
    exact ⟨_, rfl, .null (.inl rfl)⟩
  · obtain ⟨c, hc⟩ : ∃ c,
        Select.compile Blog.schema "posts" { filter := some Blog.byAuthors } = .ok c := ⟨_, rfl⟩
    obtain ⟨p, bare, hp, hbare, hnarrows⟩ :=
      (renders_iff_fits Blog.byAuthors).2.2.1 Blog.schema "posts" _ c rfl hc
    exact ⟨c, p, bare, hc, hp, hbare, hnarrows⟩
  · obtain ⟨c, hc⟩ : ∃ c,
        Delete.compile Blog.schema "posts" ⟨some (.group .or [.empty]), none⟩ = .ok c := ⟨_, rfl⟩
    obtain ⟨t, bare, -, hbare, hnarrows⟩ :=
      (renders_iff_fits (.group .or [.empty])).2.2.2.2 Blog.schema "posts" none c hc
    exact ⟨c, bare, hc, hbare, hnarrows.keeps rfl⟩

end Tabula
