import Tabula.Proofs.Fragment

/-!
# Names of tables in SQL

SQL as far as it speaks of tables: where a from-clause gives a table its name, where a column is
referred to by the name of a table, and which select either of them stands in. A name denotes what
the innermost select around it knows by that name, and nothing if that select knows two tables by
it.
-/

namespace Tabula

/-- A table as it occurs in a select. -/
inductive Occurrence where
  /-- The table that is selected from. -/
  | base
  /-- The table of the join with this index. -/
  | join (index : Nat)
  /-- The rows of an included relation: its place among those it is included with, then the places
  of the relations that it is included in. -/
  | rows (path : List Nat)
deriving DecidableEq

/-- A table under the name that a from-clause gives it. -/
structure Source where
  name : String
  table : Occurrence
deriving DecidableEq

/-- A column of the table that is known by a name, and the table that is meant. -/
structure ColumnRef where
  name : String
  column : String
  table : Occurrence

inductive Part where
  | text (s : String)
  /-- A table that goes by its own name. -/
  | named (source : Source)
  /-- An alias. -/
  | renamed (source : Source)
  | column (r : ColumnRef)

section

variable {α : Type} [DecidableEq α] (read : String → α)

/-- What a name denotes under from-clauses, the innermost first. Two names are the same to SQL if
they read the same. -/
def denotes : List (List Source) → String → Option Occurrence
  | [], _ => none
  | sources :: outer, name =>
    match sources.filter fun source => read source.name = read name with
    | [] => denotes outer name
    | [source] => some source.table
    | _ => none

end

namespace Part

def sql : Part → String
  | text s => s
  | named source => s!"from {source.name}"
  | renamed source => s!"as {source.name}"
  | column r => s!"{r.name}.{r.column}"

@[simp] theorem sql_text (s : String) : (text s).sql = s := rfl

@[simp] theorem sql_named (source : Source) : (named source).sql = s!"from {source.name}" := rfl

@[simp] theorem sql_renamed (source : Source) : (renamed source).sql = s!"as {source.name}" := rfl

def source? : Part → Option Source
  | named source | renamed source => some source
  | text _ | column _ => none

@[simp] theorem source?_text (s : String) : (text s).source? = none := rfl

@[simp] theorem source?_column (r : ColumnRef) : (column r).source? = none := rfl

@[simp] theorem source?_named (source : Source) : (named source).source? = some source := rfl

@[simp] theorem source?_renamed (source : Source) : (renamed source).source? = some source := rfl

def ref? : Part → Option ColumnRef
  | column r => some r
  | text _ | named _ | renamed _ => none

/-- A column is looked up in the table that is meant. -/
def Captured {α : Type} [DecidableEq α] (read : String → α) (scopes : List (List Source))
    (part : Part) : Prop :=
  ∀ r ∈ part.ref?, denotes read scopes r.name = some r.table

section

variable {α : Type} [DecidableEq α] {read : String → α} {scopes : List (List Source)}

@[simp] theorem captured_text (s : String) : (text s).Captured read scopes := by
  rintro r ⟨⟩

@[simp] theorem captured_named (source : Source) : (named source).Captured read scopes := by
  rintro r ⟨⟩

@[simp] theorem captured_renamed (source : Source) : (renamed source).Captured read scopes := by
  rintro r ⟨⟩

end

theorem eq_text_of_sql {part : Part} (h : part.sql = "") : part = .text "" := by
  have hfrom : toString "from " ≠ "" := by decide
  have has : toString "as " ≠ "" := by decide
  have hdot : toString "." ≠ "" := by decide
  cases part with
  | text s => exact congrArg text h
  | named source => simp [hfrom] at h
  | renamed source => simp [has] at h
  | column r => simp [sql, hdot] at h

end Part

/-- SQL with the selects in it. -/
inductive Sql where
  /-- SQL without tables. -/
  | plain (f : Fragment)
  | line (parts : List Part)
  | push (first second : Sql)
  /-- A select, from its keyword to its last clause. -/
  | select (body : Sql)
  /-- A select that stands in a from-clause in the place of a table. -/
  | derived (rows : Sql)

namespace Sql

def fragment : Sql → Fragment
  | plain f => f
  | line parts => .raw (String.join (parts.map Part.sql))
  | push first second => first.fragment.push second.fragment
  | select body => body.fragment
  | derived rows => rows.fragment

/-- The from-clause of a select: what has a name in it outside of the selects inside. -/
def sources : Sql → List Source
  | plain _ => []
  | line parts => parts.filterMap Part.source?
  | push first second => first.sources ++ second.sources
  | select _ | derived _ => []

/-- Every column is looked up in the table that is meant. A select in the place of a table does not
see the from-clause that it stands in. -/
def Captured {α : Type} [DecidableEq α] (read : String → α) : List (List Source) → Sql → Prop
  | _, plain _ => True
  | scopes, line parts => ∀ part ∈ parts, part.Captured read scopes
  | scopes, push first second => Captured read scopes first ∧ Captured read scopes second
  | scopes, select body => Captured read (body.sources :: scopes) body
  | scopes, derived rows => Captured read scopes.tail rows

/-! ## Building -/

def text (s : String) : Sql :=
  plain (.raw s)

/-- The second behind the first with a blank between them, unless one of them is empty. -/
def append (f g : Sql) : Sql :=
  if g.fragment.isEmpty then f
  else if f.fragment.isEmpty then f.push g
  else (f.push (text " ")).push g

def join (separator : String) : List Sql → Sql
  | [] => plain .empty
  | [f] => f
  | f :: g :: rest => (f.push (text separator)).push (join separator (g :: rest))

def parens (f : Sql) : Sql :=
  ((text "(").push f).push (text ")")

@[simp] theorem fragment_plain (f : Fragment) : (plain f).fragment = f := rfl

@[simp] theorem fragment_push (f g : Sql) : (f.push g).fragment = f.fragment.push g.fragment := rfl

@[simp] theorem fragment_select (body : Sql) : (select body).fragment = body.fragment := rfl

@[simp] theorem fragment_derived (rows : Sql) : (derived rows).fragment = rows.fragment := rfl

@[simp] theorem fragment_text (s : String) : (text s).fragment = .raw s := rfl

@[simp] theorem fragment_append (f g : Sql) :
    (f.append g).fragment = f.fragment.append g.fragment := by
  unfold append Fragment.append
  split
  · rfl
  · split <;> rfl

@[simp] theorem fragment_join (separator : String) (fs : List Sql) :
    (join separator fs).fragment = .join separator (fs.map fragment) := by
  induction fs with
  | nil => rfl
  | cons f fs ih =>
    cases fs with
    | nil => rfl
    | cons g fs =>
      rw [join, List.map_cons, List.map_cons, Fragment.join, ← List.map_cons, ← ih]
      rfl

@[simp] theorem fragment_parens (f : Sql) : f.parens.fragment = f.fragment.parens := rfl

/-!
## Names in what is built

What has no text is left out where clauses are put together. It has no names either, so names are
those of all clauses.
-/

theorem eq_text_of_isEmpty {parts : List Part} (h : (line parts).fragment.isEmpty = true)
    {part : Part} (hpart : part ∈ parts) : part = .text "" := by
  have hjoin : String.join (parts.map Part.sql) = "" := by
    simpa [fragment, Fragment.isEmpty, Fragment.raw, Piece.sql] using h
  have htexts : (parts.map Part.sql).flatMap String.toList = [] := by
    rw [← String.toList_join, hjoin]
    rfl
  have hpartText := List.flatMap_eq_nil_iff.1 htexts part.sql (List.mem_map_of_mem hpart)
  exact Part.eq_text_of_sql (String.toList_eq_nil_iff.1 hpartText)

theorem sources_of_isEmpty {f : Sql} (h : f.fragment.isEmpty = true) : f.sources = [] := by
  induction f with
  | plain f => rfl
  | line parts =>
    refine List.filterMap_eq_nil_iff.2 fun part hpart => ?_
    rw [eq_text_of_isEmpty h hpart]
    rfl
  | push first second ih₁ ih₂ =>
    rw [fragment, Fragment.isEmpty_push, Bool.and_eq_true] at h
    rw [sources, ih₁ h.1, ih₂ h.2, List.append_nil]
  | select body => rfl
  | derived rows => rfl

@[simp] theorem sources_text (s : String) : (text s).sources = [] := rfl

@[simp] theorem sources_append (f g : Sql) : (f.append g).sources = f.sources ++ g.sources := by
  unfold append
  split
  · rename_i hg
    rw [sources_of_isEmpty hg, List.append_nil]
  · split
    · rfl
    · rw [sources, sources, sources_text, List.append_nil]

@[simp] theorem sources_join (separator : String) (fs : List Sql) :
    (join separator fs).sources = fs.flatMap sources := by
  induction fs with
  | nil => rfl
  | cons f fs ih =>
    cases fs with
    | nil => simp [join]
    | cons g fs => simpa [join, sources] using ih

@[simp] theorem sources_parens (f : Sql) : f.parens.sources = f.sources := by
  simp [parens, sources]

section

variable {α : Type} [DecidableEq α] {read : String → α} {scopes : List (List Source)}

theorem captured_of_isEmpty {f : Sql} (h : f.fragment.isEmpty = true) : f.Captured read scopes := by
  induction f generalizing scopes with
  | plain f => trivial
  | line parts =>
    intro part hpart r hr
    rw [eq_text_of_isEmpty h hpart] at hr
    cases hr
  | push first second ih₁ ih₂ =>
    rw [fragment, Fragment.isEmpty_push, Bool.and_eq_true] at h
    exact ⟨ih₁ h.1, ih₂ h.2⟩
  | select body ih => exact ih h
  | derived rows ih => exact ih h

@[simp] theorem captured_text (s : String) : (text s).Captured read scopes := trivial

@[simp] theorem captured_append {f g : Sql} :
    (f.append g).Captured read scopes ↔ f.Captured read scopes ∧ g.Captured read scopes := by
  unfold append
  split
  · rename_i hg
    exact (and_iff_left (captured_of_isEmpty hg)).symm
  · split
    · rfl
    · simp [Captured]

@[simp] theorem captured_join {separator : String} {fs : List Sql} :
    (join separator fs).Captured read scopes ↔ ∀ f ∈ fs, f.Captured read scopes := by
  induction fs with
  | nil => simp [join, Captured]
  | cons f fs ih =>
    cases fs with
    | nil => simp [join]
    | cons g fs => simpa [join, Captured] using fun _ => ih

@[simp] theorem captured_parens {f : Sql} :
    f.parens.Captured read scopes ↔ f.Captured read scopes := by
  simp [parens, Captured]

end

end Sql

end Tabula
