import Tabula.Table.Define
import Tabula.Proofs.Schema.Lookup

/-!
# Misuse of a table's declaration

What can be wrong with a step of a declaration, given the keys of the columns declared before it,
and the error that says so. A step is taken if and only if nothing is wrong with it.
-/

namespace Tabula

/-! ## Columns -/

/-- Why a specification makes no column. -/
inductive ColumnSpec.Misuse (s : ColumnSpec) (key : String) : Error → Prop where
  | unnamed : s.name = "" → Misuse s key (.configuration (.emptyColumnName key))
  | counting : s.name ≠ "" → s.autoincrement = true → s.primaryKey = false →
      Misuse s key (.configuration (.autoincrementWithoutPrimaryKey s.name))
  | unfitting {j : Json} {fault : MappingFault} : s.name ≠ "" →
      (s.autoincrement = true → s.primaryKey = true) → s.default = some j →
      s.kind.encode j = .error fault → Misuse s key (.mapping fault)

/-- The column of a specification says what the specification says, and holds the default as it is
stored. -/
structure ColumnSpec.Makes (s : ColumnSpec) (key : String) (c : Column) : Prop where
  named : s.name ≠ ""
  counting : s.autoincrement = true → s.primaryKey = true
  default : s.default.mapM (fun j => (s.kind.encode j).mapError Error.mapping) = .ok c.default
  column : c = ⟨s.name, key, s.kind, s.unique, s.notNull, s.hasDefault, c.default, s.references,
    s.primaryKey, s.autoincrement⟩

namespace ColumnSpec

variable {s : ColumnSpec} {key : String} {c : Column} {e : Error}

/-- What is left to do for a column that is named and counts up only as a primary key. -/
theorem build_eq (hnamed : s.name ≠ "") (hcounting : s.autoincrement = true → s.primaryKey = true) :
    s.build key = (fun stored => ⟨s.name, key, s.kind, s.unique, s.notNull, s.hasDefault, stored,
        s.references, s.primaryKey, s.autoincrement⟩) <$>
      s.default.mapM fun j => (s.kind.encode j).mapError Error.mapping := by
  have hname : s.name.isEmpty = false := by simpa using hnamed
  have hcounts : (s.autoincrement && !s.primaryKey) = false := by
    cases hauto : s.autoincrement with
    | false => rfl
    | true => simp [hcounting hauto]
  simp only [build, hname, hcounts]
  rfl

theorem build_eq_ok : s.build key = .ok c ↔ s.Makes key c := by
  by_cases hnamed : s.name = ""
  · refine iff_of_false ?_ fun h => h.named hnamed
    simp [build, hnamed]
  by_cases hcounting : s.autoincrement = true → s.primaryKey = true
  · rw [build_eq hnamed hcounting, map_eq_ok]
    constructor
    · rintro ⟨stored, hstored, rfl⟩
      exact ⟨hnamed, hcounting, hstored, rfl⟩
    · intro h
      exact ⟨c.default, h.default, h.column.symm⟩
  · refine iff_of_false ?_ fun h => hcounting h.counting
    obtain ⟨hauto, hprimary⟩ := Classical.not_imp.1 hcounting
    simp [build, hnamed, hauto, hprimary]

theorem build_eq_error : s.build key = .error e ↔ s.Misuse key e := by
  by_cases hnamed : s.name = ""
  · have hbuild : s.build key = .error (.configuration (.emptyColumnName key)) := by
      simp [build, hnamed]
    rw [hbuild, Except.error.injEq]
    constructor
    · rintro rfl
      exact .unnamed hnamed
    · intro h
      cases h with
      | unnamed => rfl
      | counting hne => exact absurd hnamed hne
      | unfitting hne => exact absurd hnamed hne
  by_cases hcounting : s.autoincrement = true → s.primaryKey = true
  · rw [build_eq hnamed hcounting, map_eq_error]
    cases hdefault : s.default with
    | none =>
      refine iff_of_false (fun hfault => by cases hfault) fun h => ?_
      cases h with
      | unnamed hempty => exact hnamed hempty
      | counting _ hauto hprimary => simp [hcounting hauto] at hprimary
      | unfitting _ _ hsome => cases hdefault.symm.trans hsome
    | some j =>
      have hsome : (some j).mapM (fun j => (s.kind.encode j).mapError Error.mapping) =
          some <$> (s.kind.encode j).mapError Error.mapping := rfl
      rw [hsome, map_eq_error, mapError_eq_error]
      constructor
      · rintro ⟨fault, hfault, rfl⟩
        exact .unfitting hnamed hcounting hdefault hfault
      · intro h
        cases h with
        | unnamed hempty => exact absurd hempty hnamed
        | counting _ hauto hprimary => simp [hcounting hauto] at hprimary
        | unfitting _ _ hsome hfault =>
          cases hdefault.symm.trans hsome
          exact ⟨_, hfault, rfl⟩
  · obtain ⟨hauto, hprimary⟩ := Classical.not_imp.1 hcounting
    have hbuild :
        s.build key = .error (.configuration (.autoincrementWithoutPrimaryKey s.name)) := by
      simp [build, hnamed, hauto, hprimary]
    rw [hbuild, Except.error.injEq]
    constructor
    · rintro rfl
      exact .counting hnamed hauto (by simpa using hprimary)
    · intro h
      cases h with
      | unnamed hempty => exact absurd hempty hnamed
      | counting => rfl
      | unfitting _ hcounts => exact absurd hcounts hcounting

end ColumnSpec

/-! ## Constraints -/

/-- Why a constraint cannot list columns by `keys` where those of the keys `declared` are there. -/
inductive ConstraintKind.Misuse (kind : ConstraintKind) (table : String)
    (declared keys : List String) : Error → Prop where
  | empty : keys = [] → Misuse kind table declared keys (.configuration (.emptyConstraint kind table))
  | undeclared {before after : List String} {key : String} : keys = before ++ key :: after →
      (∀ k ∈ before, k ∈ declared) → key ∉ declared →
      Misuse kind table declared keys (.configuration (.undeclaredColumn kind key table))

/-- The names in the store of the columns that keys list. -/
structure Lists (columns : List Column) (keys names : List String) : Prop where
  nonempty : names ≠ []
  named : List.Forall₂ (fun key name => ∃ c ∈ columns, c.key = key ∧ c.name = name) keys names

namespace TableDraft

variable {d d' : TableDraft} {kind : ConstraintKind} {keys : List String} {key : String} {e : Error}

theorem column?_eq_some {c : Column} : d.column? key = some c ↔ c ∈ d.columns ∧ c.key = key :=
  find?_key_eq_some d.keys_nodup

theorem column?_eq_none : d.column? key = none ↔ key ∉ d.columns.map Column.key := by
  rw [column?, List.find?_eq_none]
  simp

/-- The name in the store of one column that a constraint lists. -/
def listed (d : TableDraft) (kind : ConstraintKind) (key : String) : Except Error String :=
  match d.column? key with
  | some c => .ok c.name
  | none => .error (.configuration (.undeclaredColumn kind key d.name))

theorem listed_eq_ok {name : String} :
    d.listed kind key = .ok name ↔ ∃ c ∈ d.columns, c.key = key ∧ c.name = name := by
  unfold listed
  cases hfind : d.column? key with
  | none =>
    refine iff_of_false nofun ?_
    rintro ⟨c, hc, rfl, -⟩
    exact column?_eq_none.1 hfind (List.mem_map_of_mem hc)
  | some c =>
    obtain ⟨hc, hkey⟩ := column?_eq_some.1 hfind
    rw [Except.ok.injEq]
    constructor
    · rintro rfl
      exact ⟨c, hc, hkey, rfl⟩
    · rintro ⟨c', hc', hkey', rfl⟩
      cases hfind.symm.trans (column?_eq_some.2 ⟨hc', hkey'⟩)
      rfl

theorem exists_listed : (∃ name, d.listed kind key = .ok name) ↔ key ∈ d.columns.map Column.key := by
  simp [listed_eq_ok]

theorem listed_eq_error : d.listed kind key = .error e ↔
    key ∉ d.columns.map Column.key ∧ .configuration (.undeclaredColumn kind key d.name) = e := by
  rw [listed, ← column?_eq_none]
  cases d.column? key <;> simp

theorem names_eq (hkeys : keys ≠ []) : d.names kind keys = keys.mapM (d.listed kind) :=
  if_neg (by simpa using hkeys)

theorem names_eq_ok {names : List String} :
    d.names kind keys = .ok names ↔ Lists d.columns keys names := by
  by_cases hkeys : keys = []
  · subst hkeys
    refine iff_of_false nofun fun h => h.nonempty ?_
    exact List.forall₂_nil_left_iff.1 h.named
  · rw [names_eq hkeys, mapM_eq_ok]
    simp only [listed_eq_ok]
    constructor
    · intro h
      refine ⟨?_, h⟩
      rintro rfl
      exact hkeys (List.forall₂_nil_right_iff.1 h)
    · exact Lists.named

theorem exists_names : (∃ names, d.names kind keys = .ok names) ↔
    keys ≠ [] ∧ ∀ k ∈ keys, k ∈ d.columns.map Column.key := by
  by_cases hkeys : keys = []
  · subst hkeys
    exact iff_of_false nofun fun h => h.1 rfl
  · rw [names_eq hkeys, exists_mapM_eq_ok, and_iff_right hkeys]
    simp only [exists_listed]

theorem names_eq_error : d.names kind keys = .error e ↔
    kind.Misuse d.name (d.columns.map Column.key) keys e := by
  by_cases hkeys : keys = []
  · have hnames : d.names kind keys = .error (.configuration (.emptyConstraint kind d.name)) :=
      if_pos (by simpa using hkeys)
    rw [hnames, Except.error.injEq]
    constructor
    · rintro rfl
      exact .empty hkeys
    · intro h
      cases h with
      | empty => rfl
      | undeclared hsplit => simp [hkeys] at hsplit
  · rw [names_eq hkeys, mapM_eq_error]
    simp only [exists_listed, listed_eq_error]
    constructor
    · rintro ⟨before, key, after, hsplit, hbefore, hkey, rfl⟩
      exact .undeclared hsplit hbefore hkey
    · intro h
      cases h with
      | empty hempty => exact absurd hempty hkeys
      | undeclared hsplit hbefore hkey => exact ⟨_, _, _, hsplit, hbefore, hkey, rfl⟩

end TableDraft

/-- The names in the store of columns of a finished table. -/
theorem Table.names_eq_ok {t : Table} {keys names : List String} :
    keys.mapM (fun key => Column.name <$> t.column key) = .ok names ↔
      List.Forall₂ (fun key name => ∃ c ∈ t.columns, c.key = key ∧ c.name = name) keys names := by
  simp only [mapM_eq_ok, map_eq_ok, column_eq_ok_iff, and_assoc]

theorem Table.column_eq_error {t : Table} {key : String} {e : Error} :
    t.column key = .error e ↔
      key ∉ t.columns.map Column.key ∧ .columnNotFound s!"{t.key}.{key}" = e := by
  rw [column, ← column?_eq_none]
  cases t.column? key <;> simp

/-! ## Steps -/

/-- Why a step cannot be taken in the declaration of a table where columns of the keys `declared`
are there. -/
inductive TableStep.Misuse (table : String) (declared : List String) : TableStep → Error → Prop where
  | columnTwice {key : String} {spec : ColumnSpec} : key ∈ declared →
      Misuse table declared (.column key spec) (.configuration (.columnTwice key table))
  | column {key : String} {spec : ColumnSpec} {e : Error} : key ∉ declared → spec.Misuse key e →
      Misuse table declared (.column key spec) e
  | primaryKey {keys : List String} {e : Error} :
      ConstraintKind.primaryKey.Misuse table declared keys e →
      Misuse table declared (.primaryKey keys) e
  | foreignKey {keys references : List String} {t : Table} {e : Error} :
      ConstraintKind.foreignKey.Misuse table declared keys e →
      Misuse table declared (.foreignKey keys t references) e
  | unpaired {keys references : List String} {t : Table} : keys ≠ [] → (∀ k ∈ keys, k ∈ declared) →
      keys.length ≠ references.length →
      Misuse table declared (.foreignKey keys t references)
        (.configuration (.foreignKeyLength table keys.length references.length))
  | unknown {keys references before after : List String} {t : Table} {key : String} : keys ≠ [] →
      (∀ k ∈ keys, k ∈ declared) → keys.length = references.length →
      references = before ++ key :: after → (∀ k ∈ before, k ∈ t.columns.map Column.key) →
      key ∉ t.columns.map Column.key →
      Misuse table declared (.foreignKey keys t references) (.columnNotFound s!"{t.key}.{key}")

namespace TableDraft

variable {d d' : TableDraft} {e : Error}

section Column

variable {key : String} {spec : ColumnSpec}

theorem step_column_of_mem (h : key ∈ d.columns.map Column.key) :
    d.step (.column key spec) = .error (.configuration (.columnTwice key d.name)) :=
  dif_pos h

theorem step_column_of_misuse (h : key ∉ d.columns.map Column.key) (he : spec.build key = .error e) :
    d.step (.column key spec) = .error e := by
  rw [step, dif_neg h]
  split
  · rename_i hc
    cases he.symm.trans hc
  · rename_i hc
    cases he.symm.trans hc
    rfl

theorem step_column_of_build {c : Column} (h : key ∉ d.columns.map Column.key)
    (hc : spec.build key = .ok c) :
    d.step (.column key spec) = .ok (d.add c (ColumnSpec.key_of_build hc ▸ h)) := by
  rw [step, dif_neg h]
  split
  · rename_i hc'
    cases hc.symm.trans hc'
    rfl
  · rename_i hc'
    cases hc.symm.trans hc'

theorem step_column_eq_error : d.step (.column key spec) = .error e ↔
    TableStep.Misuse d.name (d.columns.map Column.key) (.column key spec) e := by
  by_cases h : key ∈ d.columns.map Column.key
  · rw [step_column_of_mem h, Except.error.injEq]
    constructor
    · rintro rfl
      exact .columnTwice h
    · intro hmisuse
      cases hmisuse with
      | columnTwice => rfl
      | column hnew => exact absurd h hnew
  cases hbuild : spec.build key with
  | error e' =>
    rw [step_column_of_misuse h hbuild, Except.error.injEq]
    constructor
    · rintro rfl
      exact .column h (ColumnSpec.build_eq_error.1 hbuild)
    · intro hmisuse
      cases hmisuse with
      | columnTwice htwice => exact absurd htwice h
      | column _ he => exact Except.error.inj (hbuild.symm.trans (ColumnSpec.build_eq_error.2 he))
  | ok c =>
    rw [step_column_of_build h hbuild]
    refine iff_of_false nofun fun hmisuse => ?_
    cases hmisuse with
    | columnTwice htwice => exact h htwice
    | column _ he => cases hbuild.symm.trans (ColumnSpec.build_eq_error.2 he)

end Column

theorem step_primaryKey_eq {keys : List String} : d.step (.primaryKey keys) =
    (fun names => { d with primaryKey := names }) <$> d.names .primaryKey keys :=
  rfl

section ForeignKey

variable {keys references : List String} {t : Table}

theorem step_foreignKey_eq (d : TableDraft) (keys : List String) (t : Table)
    (references : List String) : d.step (.foreignKey keys t references) = (do
      let names ← d.names .foreignKey keys
      if keys.length = references.length then
        (fun foreign => { d with foreignKeys := d.foreignKeys ++ [⟨names, t.name, foreign⟩] }) <$>
          references.mapM fun key => Column.name <$> t.column key
      else .error (.configuration (.foreignKeyLength d.name keys.length references.length))) := by
  cases hnames : d.names .foreignKey keys with
  | error e =>
    simp only [step, hnames]
    rfl
  | ok names =>
    simp only [step, hnames, ok_bind]
    by_cases hlength : keys.length = references.length
    · rw [if_neg (not_not.2 hlength), if_pos hlength]
      rfl
    · rw [if_pos hlength, if_neg hlength]
      rfl

theorem step_foreignKey_eq_ok : d.step (.foreignKey keys t references) = .ok d' ↔
    ∃ names foreign, Lists d.columns keys names ∧ keys.length = references.length ∧
      List.Forall₂ (fun key name => ∃ c ∈ t.columns, c.key = key ∧ c.name = name)
        references foreign ∧
      d' = { d with foreignKeys := d.foreignKeys ++ [⟨names, t.name, foreign⟩] } := by
  rw [step_foreignKey_eq, bind_eq_ok]
  by_cases hlength : keys.length = references.length
  · simp only [if_pos hlength, names_eq_ok, map_eq_ok, Table.names_eq_ok]
    constructor
    · rintro ⟨names, hnames, foreign, hforeign, rfl⟩
      exact ⟨names, foreign, hnames, hlength, hforeign, rfl⟩
    · rintro ⟨names, foreign, hnames, -, hforeign, rfl⟩
      exact ⟨names, hnames, foreign, hforeign, rfl⟩
  · simp [hlength]

theorem step_foreignKey_eq_error : d.step (.foreignKey keys t references) = .error e ↔
    TableStep.Misuse d.name (d.columns.map Column.key) (.foreignKey keys t references) e := by
  rw [step_foreignKey_eq, bind_eq_error, names_eq_error]
  constructor
  · rintro (hkeys | ⟨names, hnames, h⟩)
    · exact .foreignKey hkeys
    obtain ⟨hne, hdeclared⟩ := exists_names.1 ⟨names, hnames⟩
    split at h
    · rename_i hlength
      obtain ⟨before, key, after, hsplit, hbefore, hkey⟩ := mapM_eq_error.1 (map_eq_error.1 h)
      obtain ⟨hnew, rfl⟩ := Table.column_eq_error.1 (map_eq_error.1 hkey)
      refine .unknown hne hdeclared hlength hsplit (fun k hk => ?_) hnew
      exact Table.exists_column.1 (exists_map_eq_ok.1 (hbefore k hk))
    · rename_i hlength
      cases h
      exact .unpaired hne hdeclared hlength
  · intro h
    cases h with
    | foreignKey hkeys => exact .inl hkeys
    | unpaired hne hdeclared hlength =>
      obtain ⟨names, hnames⟩ := exists_names.2 ⟨hne, hdeclared⟩
      exact .inr ⟨names, hnames, if_neg hlength⟩
    | unknown hne hdeclared hlength hsplit hbefore hkey =>
      obtain ⟨names, hnames⟩ := exists_names.2 ⟨hne, hdeclared⟩
      refine .inr ⟨names, hnames, ?_⟩
      rw [if_pos hlength, map_eq_error]
      refine mapM_eq_error.2 ⟨_, _, _, hsplit, fun k hk => ?_, ?_⟩
      · exact exists_map_eq_ok.2 (Table.exists_column.2 (hbefore k hk))
      · exact map_eq_error.2 (Table.column_eq_error.2 ⟨hkey, rfl⟩)

end ForeignKey

/-- A step fails if and only if something is wrong with it, and with that error. -/
theorem step_eq_error {step : TableStep} : d.step step = .error e ↔
    step.Misuse d.name (d.columns.map Column.key) e := by
  cases step with
  | column key spec => exact step_column_eq_error
  | primaryKey keys =>
    rw [step_primaryKey_eq, map_eq_error, names_eq_error]
    constructor
    · exact .primaryKey
    · intro h
      cases h with
      | primaryKey h => exact h
  | foreignKey keys t references => exact step_foreignKey_eq_error

end TableDraft

end Tabula
