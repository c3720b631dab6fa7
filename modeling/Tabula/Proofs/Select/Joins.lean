import Tabula.Proofs.Schema.Assembled
import Tabula.Proofs.Select.Fields

/-!
# What joins do to the fields of a select

A join makes the columns of its table known under its label. Whatever resolved before goes on
resolving to the same column, unless one of the new keys was known already. The check of the label
keeps it apart from the labels of earlier joins, but not from the key of the base table, and says
nothing of keys that are alike because names hold dots.
-/

namespace Tabula

namespace Fields

/-- Whatever resolves goes on resolving to the same SQL and the same column. -/
def Keeps (f f' : Fields) : Prop :=
  ∀ key field, f.resolve key = .ok field → f'.resolve key = .ok field

theorem Keeps.refl (f : Fields) : f.Keeps f :=
  fun _ _ h => h

theorem Keeps.trans {f f' f'' : Fields} (h : f.Keeps f') (h' : f'.Keeps f'') : f.Keeps f'' :=
  fun key field hkey => h' key field (h key field hkey)

variable {f : Fields} {base owner sqlName : String} {t : Table}

theorem Qualified.resolve_full (h : f.Qualified base) (key : String) :
    f.resolve? (full base key) = f.resolve? key := by
  rw [h.resolve?_eq, h.resolve?_eq, full_full]

/-- A key resolves to a new column if it is its key, and as before otherwise. -/
theorem Qualified.resolve_add (h : f.Qualified base) (key : String) :
    (∃ c ∈ t.columns, full base key = qualified owner c.key ∧
      (f.add owner sqlName t).resolve key = .ok ⟨s!"{sqlName}.{c.name}", c⟩) ∨
    (∀ c ∈ t.columns, full base key ≠ qualified owner c.key) ∧
      (f.add owner sqlName t).resolve key = f.resolve key := by
  have hadd := h.resolve?_add owner sqlName t key
  cases hnew : (ofTable owner sqlName t).get? (full base key) with
  | some field =>
    obtain ⟨c, hc, hkey, rfl⟩ := get?_ofTable.1 hnew
    rw [hnew, Option.some_or] at hadd
    exact .inl ⟨c, hc, hkey, resolve_eq_ok.2 hadd⟩
  | none =>
    rw [hnew, Option.none_or] at hadd
    refine .inr ⟨fun c hc hkey => ?_, by rw [resolve, resolve, hadd]⟩
    rw [get?_ofTable.2 ⟨c, hc, hkey, rfl⟩] at hnew
    cases hnew

/-- New columns leave everything as it was if and only if none of their keys was known as something
else. -/
theorem Qualified.keeps_add_iff (h : f.Qualified base) :
    f.Keeps (f.add owner sqlName t) ↔ ∀ c ∈ t.columns, ∀ field,
      f.resolve (qualified owner c.key) = .ok field → field = ⟨s!"{sqlName}.{c.name}", c⟩ := by
  constructor
  · intro hkeeps c hc field hfield
    have hnew : (f.add owner sqlName t).resolve? (qualified owner c.key) =
        some ⟨s!"{sqlName}.{c.name}", c⟩ := by
      rw [h.resolve?_add, full_qualified, get?_ofTable.2 ⟨c, hc, rfl, rfl⟩, Option.some_or]
    have hkept := hkeeps _ _ hfield
    rw [resolve_eq_ok.2 hnew] at hkept
    exact (Except.ok.inj hkept).symm
  · intro hfree key field hfield
    rcases h.resolve_add key with ⟨c, hc, hkey, hnew⟩ | ⟨-, hsame⟩
    · have hold := resolve_eq_ok.1 hfield
      rw [← h.resolve_full, hkey] at hold
      rw [hnew, hfree c hc field (resolve_eq_ok.2 hold)]
    · rw [hsame, hfield]

end Fields

namespace SelectScope

variable {s : Schema} {t : Table} {scope scope' : SelectScope} {j : Join}

/-- The scope of a base table and joins under these labels: each key belongs to one of them, and the
labels stand in the default shape. -/
structure Owned (t : Table) (labels : List String) (scope : SelectScope) : Prop where
  qualified : scope.fields.Qualified t.key
  owner : ∀ key ∈ scope.fields.entries.keys, ∃ owner ∈ t.key :: labels, ∃ column,
    key = Fields.qualified owner column
  shape : ∀ label ∈ labels, scope.shape.has label = true

theorem owner_of_mem_ofTable {owner sqlName key : String}
    (h : key ∈ (Fields.ofTable owner sqlName t).keys) :
    ∃ column, key = Fields.qualified owner column := by
  obtain ⟨e, he, rfl⟩ := List.mem_map.1 h
  obtain ⟨c, -, rfl⟩ := List.mem_map.1 he
  exact ⟨c.key, rfl⟩

theorem owned_ofTable (t : Table) : Owned t [] (ofTable t) where
  qualified := Fields.qualified_forSelect t
  owner := fun _ hkey => ⟨t.key, List.mem_cons_self, owner_of_mem_ofTable hkey⟩
  shape := by simp

theorem Owned.join {labels : List String} (h : scope.Owned t labels)
    (hjoin : scope.join s j = .ok scope') : scope'.Owned t (labels ++ [j.label]) := by
  obtain ⟨table, condition, column, field, -, -, -, -, -, -, rfl⟩ := join_eq_ok.1 hjoin
  refine ⟨h.qualified.add _ _ _, fun key hkey => ?_, fun label hlabel => ?_⟩
  · rw [joined, Fields.add, Keyed.keys_append, List.mem_append] at hkey
    rcases hkey with hkey | hkey
    · exact ⟨j.label, by simp, owner_of_mem_ofTable hkey⟩
    · obtain ⟨owner, howner, hcolumn⟩ := h.owner key hkey
      rw [← List.cons_append]
      exact ⟨owner, List.mem_append_left _ howner, hcolumn⟩
  · rw [Keyed.has_iff, joined, Keyed.keys_append, List.mem_append]
    rcases List.mem_append.1 hlabel with hlabel | hlabel
    · exact .inl (Keyed.has_iff.1 (h.shape label hlabel))
    · exact .inr hlabel

theorem owned_of_joins {joins : List Join}
    (h : joins.foldlM (SelectScope.join s) (ofTable t) = .ok scope) :
    scope.Owned t (joins.map Join.label) := by
  refine joins_induction (P := fun joins scope => scope.Owned t (joins.map Join.label))
    (owned_ofTable t) (fun before scope j scope' howned hjoin => ?_) h
  rw [List.map_append]
  exact howned.join hjoin

/-- Under a label of its own without a dot a join finds none of its keys known: the label is none of
the owners that are there. -/
theorem Owned.keeps_join {labels : List String} (h : scope.Owned t labels)
    (hdots : ∀ owner ∈ t.key :: labels, '.' ∉ owner.toList) (hlabelDots : '.' ∉ j.label.toList)
    (hbase : j.label ≠ t.key) (hjoin : scope.join s j = .ok scope') :
    scope.fields.Keeps scope'.fields := by
  obtain ⟨table, condition, column, field, -, -, -, hlabel, -, -, rfl⟩ := join_eq_ok.1 hjoin
  refine h.qualified.keeps_add_iff.2 fun c hc field hfield => ?_
  have hknown := Fields.resolve_eq_ok.1 hfield
  rw [h.qualified.resolve?_eq, Fields.full_qualified] at hknown
  obtain ⟨owner, howner, column', hkey⟩ :=
    h.owner _ (Keyed.get?_isSome_iff.1 (by rw [hknown]; rfl))
  -- without dots a key has one owner only, so the label would be one that is there
  have hsame : j.label = owner :=
    Fields.owner_eq_of_qualified hlabelDots (hdots owner howner) hkey
  subst hsame
  rcases List.mem_cons.1 howner with heq | hmem
  · exact absurd heq hbase
  · rw [h.shape j.label hmem] at hlabel
    cases hlabel

/-- Joins under labels of their own without dots keep what each other and the base table have. -/
theorem Owned.keeps_joins {labels : List String} {joins : List Join} (h : scope.Owned t labels)
    (hdots : ∀ owner ∈ t.key :: labels ++ joins.map Join.label, '.' ∉ owner.toList)
    (hbase : ∀ j ∈ joins, j.label ≠ t.key)
    (hjoins : joins.foldlM (SelectScope.join s) scope = .ok scope') :
    scope.fields.Keeps scope'.fields := by
  induction joins generalizing labels scope with
  | nil =>
    cases hjoins
    exact .refl _
  | cons j joins ih =>
    rw [List.foldlM_cons] at hjoins
    obtain ⟨scope₁, hjoin, hjoins⟩ := bind_eq_ok.1 hjoins
    obtain ⟨hfirst, hrest⟩ := List.forall_mem_cons.1 hbase
    obtain ⟨hlabels, hjoinDots⟩ := List.forall_mem_append.1 hdots
    have hkeep := h.keeps_join hlabels (hjoinDots j.label (by simp)) hfirst hjoin
    refine hkeep.trans (ih (h.join hjoin) ?_ hrest hjoins)
    simpa using hdots

end SelectScope

/-- Each join of a select adds the columns of its table: a key resolves to one of them if it is its
key, and as before otherwise. So a join leaves every field as it was if and only if none of its keys
was known as something else. If no owner of fields has a dot in its name and no join takes the key
of the base table, every field stays what it was through all joins that follow. -/
theorem Select.keeps_of_joins {s : Schema} {key : String} {q : Select} {c : Compiled}
    (hc : compile s key q = .ok c) {before after : List Join} {j : Join}
    (hq : q.joins = before ++ j :: after) :
    ∃ p scope scope' t, SelectPlan.ofSelect s key q = .ok p ∧
      before.foldlM (SelectScope.join s) (.ofTable p.table) = .ok scope ∧
      scope.join s j = .ok scope' ∧
      after.foldlM (SelectScope.join s) scope' = .ok p.scope ∧ s.table j.table = .ok t ∧
      (∀ name,
        (∃ c ∈ t.columns, Fields.full p.table.key name = s!"{j.label}.{c.key}" ∧
          scope'.fields.resolve name = .ok ⟨s!"{Text.identifier j.label}.{c.name}", c⟩) ∨
        (∀ c ∈ t.columns, Fields.full p.table.key name ≠ s!"{j.label}.{c.key}") ∧
          scope'.fields.resolve name = scope.fields.resolve name) ∧
      (scope.fields.Keeps scope'.fields ↔ ∀ c ∈ t.columns, ∀ field,
        scope.fields.resolve s!"{j.label}.{c.key}" = .ok field →
          field = ⟨s!"{Text.identifier j.label}.{c.name}", c⟩) ∧
      ((∀ owner ∈ p.table.key :: q.joins.map Join.label, '.' ∉ owner.toList) →
        (∀ j' ∈ j :: after, j'.label ≠ p.table.key) →
          scope.fields.Keeps scope'.fields ∧ scope'.fields.Keeps p.scope.fields) := by
  obtain ⟨p, hplan, -⟩ := bind_eq_ok.1 hc
  have hscope := (SelectPlan.plans_of_ofSelect hplan).scope
  rw [hq, List.foldlM_append] at hscope
  obtain ⟨scope, hbefore, hscope⟩ := bind_eq_ok.1 hscope
  rw [List.foldlM_cons] at hscope
  obtain ⟨scope', hjoin, hafter⟩ := bind_eq_ok.1 hscope
  have howned := SelectScope.owned_of_joins hbefore
  obtain ⟨t, condition, column, field, ht, -, -, -, -, -, hadd⟩ := SelectScope.join_eq_ok.1 hjoin
  refine ⟨p, scope, scope', t, hplan, hbefore, hjoin, hafter, ht, ?_, ?_, ?_⟩
  · intro name
    rw [hadd]
    exact howned.qualified.resolve_add name
  · rw [hadd]
    exact howned.qualified.keeps_add_iff
  · intro hdots hbase
    obtain ⟨hfirst, hrest⟩ := List.forall_mem_cons.1 hbase
    rw [hq, List.map_append, List.map_cons, ← List.cons_append] at hdots
    obtain ⟨hlabels, hjoinDots⟩ := List.forall_mem_append.1 hdots
    constructor
    · exact howned.keeps_join hlabels (hjoinDots j.label (by simp)) hfirst hjoin
    · refine (howned.join hjoin).keeps_joins (fun owner howner => hdots owner ?_) hrest hafter
      simpa using howner

namespace Blog

def authorJoin : Join :=
  ⟨.inner, "users", "author", some ⟨"id", .eq, "authorId"⟩⟩

def editorJoin : Join :=
  ⟨.left, "users", "editor", some ⟨"id", .ne, "author.id"⟩⟩

/-- Posts with their author and with everyone else. -/
def withPeople : Select where
  joins := [authorJoin, editorJoin]

end Blog

theorem Select.keeps_of_joins_people :
    ∃ p scope, SelectPlan.ofSelect Blog.schema "posts" Blog.withPeople = .ok p ∧
      (SelectScope.ofTable (Blog.posts.withKey "posts")).join Blog.schema Blog.authorJoin =
        .ok scope ∧
      (scope.fields.resolve "author.id").map Field.sql = .ok "\"author\".id" ∧
      scope.fields.Keeps p.scope.fields := by
  obtain ⟨c, hc⟩ : ∃ c, compile Blog.schema "posts" Blog.withPeople = .ok c := ⟨_, rfl⟩
  have hjoins : Blog.withPeople.joins = [Blog.authorJoin] ++ Blog.editorJoin :: [] := rfl
  obtain ⟨p, scope, scope', t, hplan, hbefore, -, -, -, -, -, hkeeps⟩ := keeps_of_joins hc hjoins
  have htable : Blog.schema.table "posts" = .ok (Blog.posts.withKey "posts") := rfl
  have hsame : p.table = Blog.posts.withKey "posts" :=
    Except.ok.inj ((SelectPlan.plans_of_ofSelect hplan).table.symm.trans htable)
  rw [hsame] at hbefore hkeeps
  obtain ⟨hfirst, hrest⟩ := hkeeps (by decide) (by decide)
  obtain ⟨scope₁, hjoin, hdone⟩ := bind_eq_ok.1 hbefore
  cases hdone
  refine ⟨p, scope, hplan, hjoin, ?_, hfirst.trans hrest⟩
  cases hjoin
  decide

namespace Blog

def userId : Column :=
  { name := "id", key := "id", kind := .integer, primaryKey := true }

/-- The posts of a user, under the name that the users have. -/
def takesUsersLabel : Join :=
  ⟨.inner, "posts", "users", some ⟨"authorId", .eq, "users.id"⟩⟩

def usersByOwnLabel : Select where
  joins := [takesUsersLabel]
  shape := some [("id", .field "users.id")]

end Blog

/-- A join under the key of the base table is no label in use, and `users.id` becomes the key of a
post. -/
theorem SelectScope.redirects_of_base_key :
    (Select.compile Blog.schema "users" Blog.usersByOwnLabel).map Compiled.sql = .ok
      ("select \"users\".id as \"users.id\" from app_users " ++
        "join posts as \"users\" on \"users\".author_id = app_users.id") ∧
    ∃ scope, (ofTable (Blog.users.withKey "users")).join Blog.schema Blog.takesUsersLabel =
        .ok scope ∧
      ¬(ofTable (Blog.users.withKey "users")).fields.Keeps scope.fields := by
  refine ⟨by decide +kernel, _, rfl, fun hkeeps => ?_⟩
  have hkept := hkeeps "users.id" ⟨"app_users.id", Blog.userId⟩ rfl
  revert hkept
  decide

end Tabula
