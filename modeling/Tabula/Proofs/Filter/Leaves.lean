import Tabula.Plan.Predicate
import Tabula.Proofs.Except
import Tabula.Proofs.Fragment

/-!
# Leaves of a filter

What a filter compares stands in its leaves. A predicate resolves the leaves from left to right and
keeps their order, and its SQL binds for each leaf the operands that the leaf has, in the stored
form of the column that its field resolves to.
-/

namespace Tabula

/-- A comparison at the bottom of a filter. -/
structure Leaf where
  field : String
  operator : Operator
  operand : Json

namespace Leaf

/-- The operands that need a placeholder: none for a comparison with null, each item of the array
of a set operator. -/
def operands (l : Leaf) : List Json :=
  match l.operator, l.operand with
  | .eq, .null | .ne, .null => []
  | .isIn, .arr items | .notIn, .arr items => items
  | _, operand => [operand]

/-- The operands as the column of the field stores them. -/
def values (fields : Fields) (l : Leaf) : Except Error (List Value) := do
  let field ← fields.resolve l.field
  l.operands.mapM field.column.encode

def condition (fields : Fields) (l : Leaf) : Except Error Condition :=
  Condition.ofLeaf fields l.field l.operator l.operand

section

variable {field : String} {operator : Operator} {operand : Json}

theorem operands_arr (hset : operator.isSet = true) (items : List Json) :
    operands ⟨field, operator, .arr items⟩ = items := by
  cases operator <;> first | rfl | cases hset

theorem operands_single (hset : operator.isSet = false)
    (heq : operator = .eq → operand ≠ .null) (hne : operator = .ne → operand ≠ .null) :
    operands ⟨field, operator, operand⟩ = [operand] := by
  cases operator <;> cases operand <;> simp_all [Operator.isSet, operands]

end

end Leaf

namespace Filter

mutual

/-- The leaves, from left to right. -/
def leaves : Filter → List Leaf
  | .group _ children => leavesOf children
  | .compare field operator operand => [⟨field, operator, operand⟩]

def leavesOf : List Filter → List Leaf
  | [] => []
  | f :: rest => f.leaves ++ leavesOf rest

end

/-- The values that a filter binds, leaf by leaf. -/
def values (fields : Fields) (f : Filter) : Except Error (List Value) :=
  List.flatten <$> f.leaves.mapM (Leaf.values fields)

end Filter

/-- The values that a condition binds. -/
def Condition.values (c : Condition) : List Value :=
  match c.test with
  | .isNull | .isNotNull => []
  | .compare _ operand => [operand]
  | .among _ operands => operands

namespace Predicate

mutual

/-- The conditions, from left to right. -/
def conditions : Predicate → List Condition
  | .group _ children => conditionsOf children
  | .test condition => [condition]

def conditionsOf : List Predicate → List Condition
  | [] => []
  | p :: rest => p.conditions ++ conditionsOf rest

end

/-! ## Resolving -/

mutual

/-- The conditions of a predicate are the leaves of its filter, resolved one after another. -/
theorem conditions_ofFilter (fields : Fields) : (f : Filter) →
    conditions <$> ofFilter fields f = f.leaves.mapM (Leaf.condition fields)
  | .group c children => by
    have ih := conditions_ofFilters fields children
    rw [Filter.leaves, ← ih, ofFilter]
    cases ofFilters fields children with
    | error e => rfl
    | ok ps => simp [conditions]
  | .compare key operator operand => by
    simp only [ofFilter, Filter.leaves, List.mapM_cons, List.mapM_nil, Leaf.condition]
    cases Condition.ofLeaf fields key operator operand with
    | error e => rfl
    | ok c => simp [conditions]

theorem conditions_ofFilters (fields : Fields) : (fs : List Filter) →
    conditionsOf <$> ofFilters fields fs = (Filter.leavesOf fs).mapM (Leaf.condition fields)
  | [] => rfl
  | f :: rest => by
    have ih := conditions_ofFilter fields f
    have ihs := conditions_ofFilters fields rest
    rw [Filter.leavesOf, List.mapM_append, ← ih, ← ihs, ofFilters]
    cases ofFilter fields f with
    | error e => rfl
    | ok p =>
      cases ofFilters fields rest with
      | error e => rfl
      | ok ps => simp [conditionsOf]

end

end Predicate

/-- A leaf becomes a condition if its field resolves and the column encodes its operands. -/
theorem Leaf.exists_of_condition {fields : Fields} {l : Leaf} {c : Condition}
    (h : l.condition fields = .ok c) :
    fields.resolve l.field = .ok c.field ∧
      l.operands.mapM c.field.column.encode = .ok c.values := by
  obtain ⟨key, operator, operand⟩ := l
  simp only [Leaf.condition, Condition.ofLeaf, bind_eq_ok] at h
  obtain ⟨field, hfield, h⟩ := h
  split at h
  · cases h
    exact ⟨hfield, rfl⟩
  · cases h
    exact ⟨hfield, rfl⟩
  · rename_i hne hnn
    split at h
    · rename_i hset
      split at h
      · rename_i items
        obtain ⟨vs, hvs, h⟩ := bind_eq_ok.1 h
        cases h
        rw [Leaf.operands_arr hset]
        exact ⟨hfield, hvs⟩
      · cases h
    · rename_i hset
      obtain ⟨v, hv, h⟩ := bind_eq_ok.1 h
      cases h
      rw [Leaf.operands_single (Bool.eq_false_iff.2 hset) hne hnn, List.mapM_cons, hv]
      exact ⟨hfield, rfl⟩

theorem Leaf.values_of_condition {fields : Fields} {l : Leaf} {c : Condition}
    (h : l.condition fields = .ok c) : l.values fields = .ok c.values := by
  obtain ⟨hfield, hvalues⟩ := exists_of_condition h
  rw [values, hfield, ok_bind, hvalues]

/-! ## SQL -/

theorem Condition.params_render (c : Condition) : c.render.params = c.values := by
  obtain ⟨field, test⟩ := c
  cases test <;> simp [Condition.render, Condition.values]

namespace Predicate

mutual

theorem params_renderWithin (nested : Bool) : (p : Predicate) →
    (renderWithin nested p).params = p.conditions.flatMap Condition.values
  | .group c children => by
    have ih := params_renderParts children
    simp only [renderWithin, conditions, ← ih]
    split <;> simp
  | .test condition => by simp [renderWithin, conditions, Condition.params_render]

theorem params_renderParts : (ps : List Predicate) →
    (renderParts ps).flatMap Fragment.params = (conditionsOf ps).flatMap Condition.values
  | [] => rfl
  | p :: rest => by
    have ih := params_renderWithin true p
    have ihs := params_renderParts rest
    rw [conditionsOf, List.flatMap_append, ← ih, ← ihs, renderParts]
    -- a child without text is left out, and has no parameters
    split
    · rename_i hempty
      simp [Fragment.params_of_isEmpty hempty]
    · simp

end

theorem params_render (p : Predicate) : p.render.params = p.conditions.flatMap Condition.values :=
  params_renderWithin false p

/-- The SQL of a filter binds the values of the filter. -/
theorem values_of_ofFilter {fields : Fields} {f : Filter} {p : Predicate}
    (h : ofFilter fields f = .ok p) : f.values fields = .ok p.render.params := by
  have hconditions := conditions_ofFilter fields f
  rw [h, map_ok, eq_comm, mapM_eq_ok] at hconditions
  have hvalues : f.leaves.mapM (Leaf.values fields) = .ok (p.conditions.map Condition.values) :=
    mapM_eq_ok.2 (List.forall₂_map_right_iff.2
      (hconditions.imp fun _ _ hl => Leaf.values_of_condition hl))
  rw [Filter.values, hvalues, map_ok, params_render, List.flatMap_def]

end Predicate

/-! ## Question marks -/

/-- The SQL of no field holds a question mark. -/
def Fields.Unmarked (fields : Fields) : Prop :=
  ∀ e ∈ fields.entries, Tabula.Unmarked e.2.sql

theorem Fields.Unmarked.resolve {fields : Fields} (hf : fields.Unmarked) {key : String}
    {field : Field} (h : fields.resolve key = .ok field) : Tabula.Unmarked field.sql := by
  obtain ⟨key', hmem⟩ : ∃ key', (key', field) ∈ fields.entries := by
    unfold Fields.resolve at h
    split at h
    · cases h
      rename_i hresolve
      unfold Fields.resolve? at hresolve
      split at hresolve
      · cases hresolve
        exact ⟨_, Keyed.mem_of_get? ‹_›⟩
      · split at hresolve
        · split at hresolve
          · cases hresolve
          · exact ⟨_, Keyed.mem_of_get? hresolve⟩
        · cases hresolve
    · cases h
  exact hf _ hmem

theorem Condition.plain_render {c : Condition} (h : Tabula.Unmarked c.field.sql) :
    c.render.Plain := by
  have hoperator : ∀ operator : Operator, Tabula.Unmarked operator.sql := by
    intro operator
    cases operator <;> decide
  obtain ⟨field, test⟩ := c
  cases test with
  | isNull => simpa [render] using ⟨h, by decide⟩
  | isNotNull => simpa [render] using ⟨h, by decide⟩
  | compare operator operand =>
    exact .append (by simpa [hoperator] using ⟨h, by decide⟩) (Fragment.plain_parameter operand)
  | among operator operands =>
    exact .append (by simpa [hoperator] using ⟨h, by decide⟩) (Fragment.plain_parameters operands)

namespace Predicate

mutual

theorem plain_renderWithin (nested : Bool) : (p : Predicate) →
    (∀ c ∈ p.conditions, Tabula.Unmarked c.field.sql) → (renderWithin nested p).Plain
  | .group c children, h => by
    have hseparator : Tabula.Unmarked c.separator := by cases c <;> decide
    have hjoined := Fragment.plain_join hseparator (plain_renderParts children h)
    simp only [renderWithin]
    split
    · exact hjoined.parens
    · exact hjoined
  | .test condition, h => Condition.plain_render (h condition (by simp [conditions]))

theorem plain_renderParts : (ps : List Predicate) →
    (∀ c ∈ conditionsOf ps, Tabula.Unmarked c.field.sql) → ∀ f ∈ renderParts ps, f.Plain
  | [], _ => by simp [renderParts]
  | p :: rest, h => by
    rw [conditionsOf] at h
    have hp := plain_renderWithin true p fun c hc => h c (List.mem_append_left _ hc)
    have hrest := plain_renderParts rest fun c hc => h c (List.mem_append_right _ hc)
    simp only [renderParts]
    split
    · exact hrest
    · exact List.forall_mem_cons.2 ⟨hp, hrest⟩

end

theorem plain_render_of_ofFilter {fields : Fields} (hf : fields.Unmarked) {f : Filter}
    {p : Predicate} (h : ofFilter fields f = .ok p) : p.render.Plain := by
  have hconditions := conditions_ofFilter fields f
  rw [h, map_ok, eq_comm] at hconditions
  refine plain_renderWithin false p fun c hc => ?_
  obtain ⟨l, -, hl⟩ := exists_mem_of_mapM_eq_ok hconditions hc
  exact hf.resolve (Leaf.exists_of_condition hl).1

end Predicate

end Tabula
