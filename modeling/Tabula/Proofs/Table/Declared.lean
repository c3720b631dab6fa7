import Tabula.Proofs.Table.Misuse
import Tabula.Proofs.Schema.Assembled
import Mathlib.Data.List.Induction

/-!
# What the declaration of a table comes to

A declaration fails with what is wrong with its first misused step. If no step is misused, the table
has the columns and foreign keys of its steps in their order and the last of its primary keys.
-/

namespace Tabula

theorem filterMap_append_none {α β : Type} {f : α → Option β} {x : α} (h : f x = none)
    (xs : List α) : (xs ++ [x]).filterMap f = xs.filterMap f := by
  simp [h]

theorem filterMap_append_some {α β : Type} {f : α → Option β} {x : α} {y : β} (h : f x = some y)
    (xs : List α) : (xs ++ [x]).filterMap f = xs.filterMap f ++ [y] := by
  simp [h]

namespace TableStep

/-- The column that a step declares, with its key. -/
def column? : TableStep → Option (String × ColumnSpec)
  | column key spec => some (key, spec)
  | primaryKey _ | foreignKey _ _ _ => none

def primaryKey? : TableStep → Option (List String)
  | primaryKey keys => some keys
  | column _ _ | foreignKey _ _ _ => none

/-- The foreign key that a step declares: its columns, the table that it leads to, and the columns
there. -/
def foreignKey? : TableStep → Option (List String × Table × List String)
  | foreignKey keys t references => some (keys, t, references)
  | column _ _ | primaryKey _ => none

def columns (steps : List TableStep) : Keyed ColumnSpec :=
  steps.filterMap column?

def primaryKeys (steps : List TableStep) : List (List String) :=
  steps.filterMap primaryKey?

def foreignKeys (steps : List TableStep) : List (List String × Table × List String) :=
  steps.filterMap foreignKey?

/-- No step is misused where it stands. -/
def Proper (table : String) (steps : List TableStep) : Prop :=
  ∀ before step after, steps = before ++ step :: after →
    ∀ e, ¬step.Misuse table (columns before).keys e

variable {table : String} {steps : List TableStep} {step : TableStep}

theorem proper_nil : Proper table [] := by
  intro before step after h
  simp at h

theorem proper_append_singleton : Proper table (steps ++ [step]) ↔
    Proper table steps ∧ ∀ e, ¬step.Misuse table (columns steps).keys e := by
  constructor
  · intro h
    refine ⟨fun before step' after hsplit => ?_, h steps step [] rfl⟩
    exact h before step' (after ++ [step]) (by simp [hsplit])
  · rintro ⟨hsteps, hstep⟩ before step' after hsplit
    rcases List.eq_nil_or_concat after with rfl | ⟨after, last, rfl⟩
    · obtain ⟨rfl, hlast⟩ := List.append_inj' hsplit rfl
      cases hlast
      exact hstep
    · refine hsteps before step' after ?_
      rw [List.concat_eq_append, ← List.cons_append, ← List.append_assoc] at hsplit
      exact (List.append_inj' hsplit rfl).1

end TableStep

/-! ## What steps make of a table -/

theorem Lists.mono {columns columns' : List Column} {keys names : List String}
    (h : Lists columns keys names) (hsub : columns ⊆ columns') : Lists columns' keys names :=
  ⟨h.nonempty, h.named.imp fun _ _ ⟨c, hc, hnamed⟩ => ⟨c, hsub hc, hnamed⟩⟩

/-- A foreign key pairs columns of its own table with as many of the table that it leads to. -/
structure ForeignKey.Declares (own : List Column) (declared : List String × Table × List String)
    (k : ForeignKey) : Prop where
  columns : Lists own declared.1 k.columns
  table : k.foreignTable = declared.2.1.name
  references : Lists declared.2.1.columns declared.2.2 k.foreignColumns
  paired : k.columns.length = k.foreignColumns.length

/-- The columns and constraints are those that steps declare. -/
structure TableStep.Declare (steps : List TableStep) (own : List Column) (primaryKey : List String)
    (foreignKeys : List ForeignKey) : Prop where
  columns : List.Forall₂ (fun s c => s.2.Makes s.1 c) (TableStep.columns steps) own
  unkeyed : TableStep.primaryKeys steps = [] → primaryKey = []
  primaryKey : ∀ keys, (TableStep.primaryKeys steps).getLast? = some keys →
    Lists own keys primaryKey
  foreignKeys : List.Forall₂ (ForeignKey.Declares own) (TableStep.foreignKeys steps) foreignKeys

theorem ForeignKey.Declares.mono {own own' : List Column}
    {declared : List String × Table × List String} {k : ForeignKey} (h : k.Declares own declared)
    (hsub : own ⊆ own') : k.Declares own' declared :=
  ⟨h.columns.mono hsub, h.table, h.references, h.paired⟩

namespace TableDraft

variable {name : String} {steps : List TableStep} {step : TableStep} {d d' : TableDraft} {e : Error}

/-- The draft is what steps make of a table of that name. -/
structure Follows (name : String) (steps : List TableStep) (d : TableDraft) : Prop where
  name : d.name = name
  declare : TableStep.Declare steps d.columns d.primaryKey d.foreignKeys

theorem Follows.keys (h : d.Follows name steps) :
    d.columns.map Column.key = (TableStep.columns steps).keys :=
  (map_eq_map_of_forall₂ (fun _ _ hc => by rw [ColumnSpec.Makes.column hc])
    h.declare.columns).symm

theorem follows_column {key : String} {spec : ColumnSpec} (h : d.Follows name steps)
    (hstep : d.step (.column key spec) = .ok d') :
    d'.Follows name (steps ++ [.column key spec]) := by
  have hdeclare := h.declare
  by_cases hkey : key ∈ d.columns.map Column.key
  · cases (step_column_of_mem hkey).symm.trans hstep
  cases hbuild : spec.build key with
  | error e => cases (step_column_of_misuse hkey hbuild).symm.trans hstep
  | ok c =>
    cases (step_column_of_build hkey hbuild).symm.trans hstep
    -- the constraints are found in the longer list of columns
    have hsub : d.columns ⊆ d.columns ++ [c] := List.subset_append_left _ _
    refine ⟨h.name, ?_, ?_, ?_, ?_⟩
    · rw [TableStep.columns, filterMap_append_some (f := TableStep.column?) rfl]
      exact List.rel_append hdeclare.columns (.cons (ColumnSpec.build_eq_ok.1 hbuild) .nil)
    · rw [TableStep.primaryKeys, filterMap_append_none rfl]
      exact hdeclare.unkeyed
    · rw [TableStep.primaryKeys, filterMap_append_none rfl]
      exact fun keys hkeys => (hdeclare.primaryKey keys hkeys).mono hsub
    · rw [TableStep.foreignKeys, filterMap_append_none rfl]
      exact hdeclare.foreignKeys.imp fun _ _ hk => hk.mono hsub

theorem follows_primaryKey {keys : List String} (h : d.Follows name steps)
    (hstep : d.step (.primaryKey keys) = .ok d') : d'.Follows name (steps ++ [.primaryKey keys]) := by
  have hdeclare := h.declare
  obtain ⟨names, hnames, rfl⟩ := map_eq_ok.1 (step_primaryKey_eq.symm.trans hstep)
  refine ⟨h.name, ?_, ?_, ?_, ?_⟩
  · rw [TableStep.columns, filterMap_append_none rfl]
    exact hdeclare.columns
  · rw [TableStep.primaryKeys, filterMap_append_some (f := TableStep.primaryKey?) rfl]
    simp
  · rw [TableStep.primaryKeys, filterMap_append_some (f := TableStep.primaryKey?) rfl, List.getLast?_concat]
    rintro _ ⟨⟩
    exact names_eq_ok.1 hnames
  · rw [TableStep.foreignKeys, filterMap_append_none rfl]
    exact hdeclare.foreignKeys

theorem follows_foreignKey {keys references : List String} {t : Table} (h : d.Follows name steps)
    (hstep : d.step (.foreignKey keys t references) = .ok d') :
    d'.Follows name (steps ++ [.foreignKey keys t references]) := by
  have hdeclare := h.declare
  obtain ⟨names, foreign, hnames, hlength, hforeign, rfl⟩ := step_foreignKey_eq_ok.1 hstep
  have hpaired : names.length = foreign.length := by
    rw [← hnames.named.length_eq, ← hforeign.length_eq, hlength]
  have hne : foreign ≠ [] := by
    rw [← List.length_pos_iff, ← hpaired, List.length_pos_iff]
    exact hnames.nonempty
  refine ⟨h.name, ?_, ?_, ?_, ?_⟩
  · rw [TableStep.columns, filterMap_append_none rfl]
    exact hdeclare.columns
  · rw [TableStep.primaryKeys, filterMap_append_none rfl]
    exact hdeclare.unkeyed
  · rw [TableStep.primaryKeys, filterMap_append_none rfl]
    exact hdeclare.primaryKey
  · rw [TableStep.foreignKeys, filterMap_append_some (f := TableStep.foreignKey?) rfl]
    exact List.rel_append hdeclare.foreignKeys (.cons ⟨hnames, rfl, ⟨hne, hforeign⟩, hpaired⟩ .nil)

/-- A step adds what it declares, and all that has been declared stays. -/
theorem follows_step (h : d.Follows name steps) (hstep : d.step step = .ok d') :
    d'.Follows name (steps ++ [step]) := by
  cases step with
  | column key spec => exact follows_column h hstep
  | primaryKey keys => exact follows_primaryKey h hstep
  | foreignKey keys t references => exact follows_foreignKey h hstep

/-- The last step meets what the others have left behind. -/
theorem foldlM_append_singleton :
    (steps ++ [step]).foldlM TableDraft.step d = .ok d' ↔
      ∃ d₁, steps.foldlM TableDraft.step d = .ok d₁ ∧ d₁.step step = .ok d' := by
  rw [List.foldlM_append, bind_eq_ok]
  simp only [List.foldlM_cons, List.foldlM_nil, bind_pure]

theorem follows_of_foldlM (h : steps.foldlM TableDraft.step (.start name) = .ok d) :
    d.Follows name steps := by
  induction steps using List.reverseRecOn generalizing d with
  | nil =>
    cases h
    exact ⟨rfl, .nil, fun _ => rfl, nofun, .nil⟩
  | append_singleton steps step ih =>
    obtain ⟨d₁, hd₁, hstep⟩ := foldlM_append_singleton.1 h
    exact follows_step (ih hd₁) hstep

theorem exists_foldlM : (∃ d, steps.foldlM TableDraft.step (.start name) = .ok d) ↔
    TableStep.Proper name steps := by
  induction steps using List.reverseRecOn with
  | nil => exact iff_of_true ⟨_, rfl⟩ TableStep.proper_nil
  | append_singleton steps step ih =>
    rw [TableStep.proper_append_singleton, ← ih]
    simp only [foldlM_append_singleton]
    constructor
    · rintro ⟨d', d, hd, hstep⟩
      refine ⟨⟨d, hd⟩, fun e he => ?_⟩
      have hfollows := follows_of_foldlM hd
      rw [← hfollows.name, ← hfollows.keys] at he
      cases hstep.symm.trans (step_eq_error.2 he)
    · rintro ⟨⟨d, hd⟩, hproper⟩
      have hfollows := follows_of_foldlM hd
      rw [← hfollows.keys, ← hfollows.name] at hproper
      cases hstep : d.step step with
      | error e => exact absurd (step_eq_error.1 hstep) (hproper e)
      | ok d' => exact ⟨d', d, hd, hstep⟩

theorem foldlM_eq_error : steps.foldlM TableDraft.step (.start name) = .error e ↔
    ∃ before step after, steps = before ++ step :: after ∧ TableStep.Proper name before ∧
      step.Misuse name (TableStep.columns before).keys e := by
  rw [Tabula.foldlM_eq_error]
  refine exists_congr fun before => exists_congr fun step => exists_congr fun after => ?_
  constructor
  · rintro ⟨d, rfl, hd, hstep⟩
    have hfollows := follows_of_foldlM hd
    refine ⟨rfl, exists_foldlM.1 ⟨d, hd⟩, ?_⟩
    rw [← hfollows.keys, ← hfollows.name]
    exact step_eq_error.1 hstep
  · rintro ⟨rfl, hproper, hmisuse⟩
    obtain ⟨d, hd⟩ := exists_foldlM.2 hproper
    have hfollows := follows_of_foldlM hd
    rw [← hfollows.keys, ← hfollows.name] at hmisuse
    exact ⟨d, rfl, hd, step_eq_error.2 hmisuse⟩

end TableDraft

/-! ## Going on after a failure -/

/-- A declaration that goes on after steps that cannot be taken, with what the others have declared
and the first failure. -/
structure TableAttempt where
  draft : TableDraft
  failure : Option Error

namespace TableAttempt

/-- Takes one step, or leaves it out and notes why. -/
def take (a : TableAttempt) (step : TableStep) : TableAttempt :=
  match a.draft.step step with
  | .ok d => { a with draft := d }
  | .error e => { a with failure := a.failure.or (some e) }

/-- The declared table, or the first failure. -/
def finish (a : TableAttempt) : Except Error Table :=
  match a.failure with
  | some e => .error e
  | none => a.draft.finish

theorem failure_take {a : TableAttempt} {e : Error} (h : a.failure = some e) (step : TableStep) :
    (a.take step).failure = some e := by
  unfold take
  split
  · exact h
  · rw [h, Option.some_or]

/-- No later step hides the first failure. -/
theorem finish_foldl_take_of_failure {steps : List TableStep} {a : TableAttempt} {e : Error}
    (h : a.failure = some e) : (steps.foldl take a).finish = .error e := by
  induction steps generalizing a with
  | nil => rw [List.foldl_nil, finish, h]
  | cons step steps ih => exact ih (failure_take h step)

/-- Going on after a failure changes nothing of what a declaration comes to. -/
theorem finish_foldl_take (steps : List TableStep) (d : TableDraft) :
    (steps.foldl take ⟨d, none⟩).finish = steps.foldlM TableDraft.step d >>= TableDraft.finish := by
  induction steps generalizing d with
  | nil => rfl
  | cons step steps ih =>
    rw [List.foldl_cons, List.foldlM_cons]
    cases hstep : d.step step with
    | error e =>
      have hnoted : take ⟨d, none⟩ step = ⟨d, some e⟩ := by
        rw [take, hstep]
        rfl
      rw [hnoted, error_bind, error_bind]
      exact finish_foldl_take_of_failure rfl
    | ok d' =>
      have htaken : take ⟨d, none⟩ step = ⟨d', none⟩ := by rw [take, hstep]
      rw [htaken, ok_bind, ih]

end TableAttempt

/-! ## The outcome -/

theorem TableDraft.finish_of_nil {d : TableDraft} (h : d.columns = []) :
    d.finish = .error (.configuration (.noColumns d.name)) :=
  dif_pos h

theorem TableDraft.finish_of_ne {d : TableDraft} (h : d.columns ≠ []) : d.finish =
    .ok ⟨d.name, d.name, d.columns, d.primaryKey, d.foreignKeys, h, d.keys_nodup⟩ :=
  dif_neg h

theorem TableDraft.Follows.columns_eq_nil {name : String} {steps : List TableStep} {d : TableDraft}
    (h : d.Follows name steps) : d.columns = [] ↔ TableStep.columns steps = [] := by
  rw [← List.map_eq_nil_iff (f := Column.key), h.keys, Keyed.keys, List.map_eq_nil_iff]

namespace Table

theorem define_eq_error {name : String} {steps : List TableStep} {e : Error} :
    define name steps = .error e ↔
      (∃ before step after, steps = before ++ step :: after ∧ TableStep.Proper name before ∧
        step.Misuse name (TableStep.columns before).keys e) ∨
      TableStep.Proper name steps ∧ TableStep.columns steps = [] ∧
        .configuration (.noColumns name) = e := by
  rw [define, bind_eq_error, TableDraft.foldlM_eq_error]
  refine or_congr_right ⟨?_, ?_⟩
  · rintro ⟨d, hd, hfinish⟩
    have hfollows := TableDraft.follows_of_foldlM hd
    by_cases hnil : d.columns = []
    · rw [TableDraft.finish_of_nil hnil, Except.error.injEq, hfollows.name] at hfinish
      exact ⟨TableDraft.exists_foldlM.1 ⟨d, hd⟩, hfollows.columns_eq_nil.1 hnil, hfinish⟩
    · cases (TableDraft.finish_of_ne hnil).symm.trans hfinish
  · rintro ⟨hproper, hnil, rfl⟩
    obtain ⟨d, hd⟩ := TableDraft.exists_foldlM.2 hproper
    have hfollows := TableDraft.follows_of_foldlM hd
    refine ⟨d, hd, ?_⟩
    rw [TableDraft.finish_of_nil (hfollows.columns_eq_nil.2 hnil), hfollows.name]

/-- A table is what its last draft is. -/
theorem exists_draft {name : String} {steps : List TableStep} {t : Table}
    (h : define name steps = .ok t) : ∃ d, steps.foldlM TableDraft.step (.start name) = .ok d ∧
      t.name = d.name ∧ t.key = d.name ∧ t.columns = d.columns ∧ t.primaryKey = d.primaryKey ∧
      t.foreignKeys = d.foreignKeys := by
  obtain ⟨d, hd, hfinish⟩ := bind_eq_ok.1 h
  refine ⟨d, hd, ?_⟩
  by_cases hnil : d.columns = []
  · cases (TableDraft.finish_of_nil hnil).symm.trans hfinish
  · cases (TableDraft.finish_of_ne hnil).symm.trans hfinish
    exact ⟨rfl, rfl, rfl, rfl, rfl⟩

theorem exists_define {name : String} {steps : List TableStep} :
    (∃ t, define name steps = .ok t) ↔
      TableStep.Proper name steps ∧ TableStep.columns steps ≠ [] := by
  constructor
  · rintro ⟨t, h⟩
    obtain ⟨d, hd, -, -, hcolumns, -⟩ := exists_draft h
    have hfollows := TableDraft.follows_of_foldlM hd
    refine ⟨TableDraft.exists_foldlM.1 ⟨d, hd⟩, fun hnil => ?_⟩
    exact t.columns_ne_nil (hcolumns.trans (hfollows.columns_eq_nil.2 hnil))
  · rintro ⟨hproper, hne⟩
    obtain ⟨d, hd⟩ := TableDraft.exists_foldlM.2 hproper
    have hfollows := TableDraft.follows_of_foldlM hd
    exact ⟨_, bind_eq_ok.2 ⟨d, hd, TableDraft.finish_of_ne (mt hfollows.columns_eq_nil.1 hne)⟩⟩

/-- A declaration, whether or not it goes on after a failure, fails with what is wrong with its
first misused step, or for want of columns if no step is misused. Any other makes a table of the
columns and foreign keys of its steps, in their order, and of the last primary key. -/
theorem declared_or_misused (name : String) (steps : List TableStep) :
    (steps.foldl TableAttempt.take ⟨.start name, none⟩).finish = define name steps ∧
    (∀ e, define name steps = .error e ↔
      (∃ before step after, steps = before ++ step :: after ∧ TableStep.Proper name before ∧
        step.Misuse name (TableStep.columns before).keys e) ∨
      TableStep.Proper name steps ∧ TableStep.columns steps = [] ∧
        .configuration (.noColumns name) = e) ∧
    ∀ t, define name steps = .ok t →
      TableStep.Proper name steps ∧ t.name = name ∧ t.key = name ∧ t.columns ≠ [] ∧
      (TableStep.columns steps).keys.Nodup ∧
      t.columns.map Column.key = (TableStep.columns steps).keys ∧
      TableStep.Declare steps t.columns t.primaryKey t.foreignKeys := by
  refine ⟨TableAttempt.finish_foldl_take steps _, fun e => define_eq_error, fun t h => ?_⟩
  obtain ⟨d, hd, hname, hkey, hcolumns, hprimaryKey, hforeignKeys⟩ := exists_draft h
  have hfollows := TableDraft.follows_of_foldlM hd
  have hkeys : t.columns.map Column.key = (TableStep.columns steps).keys := by
    rw [hcolumns, hfollows.keys]
  refine ⟨TableDraft.exists_foldlM.1 ⟨d, hd⟩, hname.trans hfollows.name, hkey.trans hfollows.name,
    t.columns_ne_nil, hkeys ▸ t.keys_nodup, hkeys, ?_⟩
  rw [hcolumns, hprimaryKey, hforeignKeys]
  exact hfollows.declare

/-- Readers like posts; the second primary key takes the place of the first. -/
def likes : List TableStep := [
  .column "userId" (.ofKind .integer "user_id"),
  .primaryKey ["userId"],
  .column "postId" (.ofKind .integer "post_id"),
  .primaryKey ["userId", "postId"],
  .foreignKey ["postId"] Blog.posts ["id"]]

/-- A primary key before its column, then a column twice and a column without a name. -/
def misusedLikes : List TableStep := [
  .column "userId" (.ofKind .integer "user_id"),
  .primaryKey ["userId", "postId"],
  .column "postId" (.ofKind .integer "post_id"),
  .column "userId" (.ofKind .integer "reader_id"),
  .column "at" (.ofKind .date "")]

theorem declared_or_misused_likes :
    (∃ t, define "likes" likes = .ok t ∧ TableStep.Proper "likes" likes ∧
      t.columns.map Column.key = ["userId", "postId"] ∧
      Lists t.columns ["userId", "postId"] t.primaryKey ∧
      t.primaryKey = ["user_id", "post_id"]) ∧
    (misusedLikes.foldl TableAttempt.take ⟨.start "likes", none⟩).finish =
      .error (.configuration (.undeclaredColumn .primaryKey "postId" "likes")) := by
  constructor
  · obtain ⟨t, ht, hprimaryKey⟩ : ∃ t, define "likes" likes = .ok t ∧
        t.primaryKey = ["user_id", "post_id"] := ⟨_, rfl, rfl⟩
    obtain ⟨hproper, -, -, -, -, hkeys, hdeclare⟩ :=
      (declared_or_misused "likes" likes).2.2 t ht
    exact ⟨t, ht, hproper, hkeys, hdeclare.primaryKey _ rfl, hprimaryKey⟩
  · rw [(declared_or_misused "likes" misusedLikes).1]
    rfl

end Table

end Tabula
