import Tabula.Proofs.Filter.Meaning
import Tabula.Proofs.Schema.Assembled
import Tabula.Plan.Update

/-!
# The fields that a JSON filter mentions

In JSON a field is a member of an object outside or inside of groups, with an object of operators.
Each operator becomes one condition on the column of the field, and the conditions stand in the SQL
in the order of the JSON. A field without operators becomes nothing: it is not even looked for among
the columns, and a delete by such a filter has no condition.
-/

namespace Tabula

/-- A member of a JSON filter that stands for a field. -/
structure Mention where
  field : String
  value : Json

namespace Filter

mutual

/-- The members that stand for fields, inside of all groups, in order. -/
def mentions : Json → List Mention
  | .obj members => mentionsOf members
  | _ => []

def mentionsOf : List (String × Json) → List Mention
  | [] => []
  | (key, j) :: rest => mentionsIn key j ++ mentionsOf rest

def mentionsIn : String → Json → List Mention
  | key, .arr items =>
    match Connective.ofKey? key with
    | some _ => mentionsAll items
    | none => [⟨key, .arr items⟩]
  | key, .obj members =>
    match Connective.ofKey? key with
    | some _ => mentionsOf members
    | none => [⟨key, .obj members⟩]
  | key, j =>
    match Connective.ofKey? key with
    | some _ => []
    | none => [⟨key, j⟩]

def mentionsAll : List Json → List Mention
  | [] => []
  | j :: rest => mentions j ++ mentionsAll rest

end

end Filter

namespace Mention

/-- One leaf for each operator. -/
def Reads (m : Mention) (ls : List Leaf) : Prop :=
  ∃ operators, m.value = .obj operators ∧
    List.Forall₂ (fun e l => l.field = m.field ∧ Operator.ofKey? e.1 = some l.operator ∧
      l.operand = e.2) operators ls

/-- One condition for each operator, on the column that the field resolves to. -/
def Contributes (fields : Fields) (m : Mention) (cs : List Condition) : Prop :=
  ∃ operators, m.value = .obj operators ∧
    List.Forall₂ (fun e c => ∃ operator, Operator.ofKey? e.1 = some operator ∧
      Condition.ofLeaf fields m.field operator e.2 = .ok c) operators cs

variable {fields : Fields} {m : Mention} {ls : List Leaf} {cs : List Condition}

theorem Reads.contributes (h : m.Reads ls) (hcs : ls.mapM (Leaf.condition fields) = .ok cs) :
    m.Contributes fields cs := by
  obtain ⟨operators, hvalue, hls⟩ := h
  refine ⟨operators, hvalue, ?_⟩
  rw [mapM_eq_ok] at hcs
  clear hvalue
  induction hls generalizing cs with
  | nil =>
    cases hcs
    exact .nil
  | @cons e l operators ls hl _ ih =>
    obtain ⟨field, operator, operand⟩ := l
    obtain ⟨rfl, hoperator, rfl⟩ := hl
    cases hcs with
    | cons hc hcs => exact .cons ⟨operator, hoperator, hc⟩ (ih hcs)

theorem forall₂_contributes {ms : List Mention} {lss : List (List Leaf)}
    {css : List (List Condition)} (hreads : List.Forall₂ Reads ms lss)
    (hcss : List.Forall₂ (fun ls cs => ls.mapM (Leaf.condition fields) = .ok cs) lss css) :
    List.Forall₂ (Contributes fields) ms css := by
  induction hreads generalizing css with
  | nil =>
    cases hcss
    exact .nil
  | cons h _ ih =>
    cases hcss with
    | cons hcs hcss => exact .cons (h.contributes hcs) (ih hcss)

theorem Contributes.nil_iff (h : m.Contributes fields cs) : cs = [] ↔ m.value = .obj [] := by
  obtain ⟨operators, hvalue, hcs⟩ := h
  rw [hvalue, Json.obj.injEq, ← List.length_eq_zero_iff, ← List.length_eq_zero_iff, hcs.length_eq]

theorem Contributes.resolve (h : m.Contributes fields cs) {c : Condition} (hc : c ∈ cs) :
    fields.resolve m.field = .ok c.field := by
  obtain ⟨operators, -, hcs⟩ := h
  obtain ⟨e, -, operator, -, hleaf⟩ := exists_of_forall₂ hcs.flip hc
  exact (Leaf.exists_of_condition (l := ⟨m.field, operator, e.2⟩) hleaf).1

end Mention

/-! ## Reading -/

namespace Filter

/-- The leaves are those of the mentions, one mention after another. -/
def ReadsAll (ms : List Mention) (ls : List Leaf) : Prop :=
  ∃ lss, List.Forall₂ Mention.Reads ms lss ∧ lss.flatten = ls

namespace ReadsAll

theorem nil : ReadsAll [] [] :=
  ⟨[], .nil, rfl⟩

theorem append {ms ms' : List Mention} {ls ls' : List Leaf} (h : ReadsAll ms ls)
    (h' : ReadsAll ms' ls') : ReadsAll (ms ++ ms') (ls ++ ls') := by
  obtain ⟨lss, hlss, rfl⟩ := h
  obtain ⟨lss', hlss', rfl⟩ := h'
  exact ⟨lss ++ lss', List.rel_append hlss hlss', List.flatten_append⟩

end ReadsAll

theorem leaves_conjunction (fs : List Filter) : (conjunction fs).leaves = leavesOf fs := by
  unfold conjunction
  split
  · rw [leavesOf, leavesOf, List.append_nil]
  · rfl

theorem reads_comparisons {field : String} {operators : List (String × Json)} {fs : List Filter}
    (h : comparisons field operators = .ok fs) :
    Mention.Reads ⟨field, .obj operators⟩ (leavesOf fs) := by
  refine ⟨operators, rfl, ?_⟩
  rw [comparisons, mapM_eq_ok] at h
  induction h with
  | nil => exact .nil
  | @cons e f operators fs hf _ ih =>
    obtain ⟨key, operand⟩ := e
    dsimp only at hf
    split at hf
    · cases hf
    · rename_i operator hoperator
      split at hf
      · cases hf
      · cases hf
        exact .cons ⟨rfl, hoperator, rfl⟩ ih

mutual

theorem reads_ofJson : (j : Json) → {f : Filter} → ofJson j = .ok f →
    ReadsAll (mentions j) f.leaves
  | .obj members, f, h => by
    obtain ⟨fs, hfs, rfl⟩ := map_eq_ok.1 h
    rw [leaves_conjunction]
    exact reads_ofMembers members hfs
  | .null, f, h | .bool _, f, h | .number _, f, h | .str _, f, h | .arr _, f, h => by
    cases h

theorem reads_ofMembers : (members : List (String × Json)) → {fs : List Filter} →
    ofMembers members = .ok fs → ReadsAll (mentionsOf members) (leavesOf fs)
  | [], fs, h => by
    cases h
    exact .nil
  | (key, j) :: rest, fs, h => by
    obtain ⟨first, hfirst, h⟩ := bind_eq_ok.1 h
    obtain ⟨others, hothers, h⟩ := bind_eq_ok.1 h
    cases h
    rw [leavesOf_append]
    exact (reads_ofMember key j hfirst).append (reads_ofMembers rest hothers)

theorem reads_ofMember : (key : String) → (j : Json) → {fs : List Filter} →
    ofMember key j = .ok fs → ReadsAll (mentionsIn key j) (leavesOf fs)
  | key, .arr items, fs, h => by
    rw [ofMember] at h
    rw [mentionsIn]
    cases hkey : Connective.ofKey? key with
    | none =>
      rw [hkey] at h
      cases h
    | some c =>
      rw [hkey] at h
      obtain ⟨children, hchildren, rfl⟩ := map_eq_ok.1 h
      rw [leavesOf, leavesOf, List.append_nil]
      exact reads_ofItems items hchildren
  | key, .obj members, fs, h => by
    rw [ofMember] at h
    rw [mentionsIn]
    cases hkey : Connective.ofKey? key with
    | none =>
      rw [hkey] at h
      exact ⟨[leavesOf fs], .cons (reads_comparisons h) .nil, List.append_nil _⟩
    | some c =>
      rw [hkey] at h
      obtain ⟨children, hchildren, rfl⟩ := map_eq_ok.1 h
      rw [leavesOf, leavesOf, List.append_nil]
      exact reads_ofEntries members hchildren
  | key, .null, fs, h | key, .bool _, fs, h | key, .number _, fs, h | key, .str _, fs, h => by
    rw [ofMember] at h
    · split at h
      · cases h
      · cases h
    · simp
    · simp

theorem reads_ofItems : (items : List Json) → {fs : List Filter} → ofItems items = .ok fs →
    ReadsAll (mentionsAll items) (leavesOf fs)
  | [], fs, h => by
    cases h
    exact .nil
  | j :: rest, fs, h => by
    obtain ⟨first, hfirst, h⟩ := bind_eq_ok.1 h
    obtain ⟨others, hothers, h⟩ := bind_eq_ok.1 h
    cases h
    exact (reads_ofJson j hfirst).append (reads_ofItems rest hothers)

theorem reads_ofEntries : (members : List (String × Json)) → {fs : List Filter} →
    ofEntries members = .ok fs → ReadsAll (mentionsOf members) (leavesOf fs)
  | [], fs, h => by
    cases h
    exact .nil
  | (key, j) :: rest, fs, h => by
    obtain ⟨first, hfirst, h⟩ := bind_eq_ok.1 h
    obtain ⟨others, hothers, h⟩ := bind_eq_ok.1 h
    cases h
    rw [leavesOf, leaves_conjunction]
    exact (reads_ofMember key j hfirst).append (reads_ofEntries rest hothers)

end

end Filter

/-! ## SQL -/

namespace Predicate

variable {fields : Fields} {j : Json} {f : Filter} {p : Predicate}

theorem mapM_leaves (h : ofFilter fields f = .ok p) :
    f.leaves.mapM (Leaf.condition fields) = .ok p.conditions := by
  rw [← conditions_ofFilter, h, map_ok]

theorem reading?_eq_none_iff (h : ofFilter fields f = .ok p) :
    p.reading? = none ↔ p.conditions = [] := by
  have hlength := (mapM_eq_ok.1 (mapM_leaves h)).length_eq
  rw [reading?_eq_none h, ← List.length_eq_zero_iff, hlength, List.length_eq_zero_iff]

/-- What is rendered are the conditions, among connectives and parentheses. -/
theorem exists_tokens (h : ofFilter fields f = .ok p) :
    ∃ ts, p.render = .ofTokens ts ∧ Token.leaves ts = p.conditions := by
  cases hreading : p.reading? with
  | some d => exact ⟨d.tokens, render_eq_ofTokens hreading, leaves_reading? hreading⟩
  | none =>
    exact ⟨[], render_of_reading?_eq_none hreading, ((reading?_eq_none_iff h).1 hreading).symm⟩

theorem isEmpty_ofTokens {ts : List (Token Condition)} {c : Condition} (hc : c ∈ Token.leaves ts) :
    (Fragment.ofTokens ts).isEmpty = false := by
  induction ts with
  | nil => cases hc
  | cons t ts ih =>
    rw [Fragment.ofTokens_cons, Fragment.isEmpty_push, Bool.and_eq_false_iff]
    cases t with
    | leaf a => exact .inl a.isEmpty_render
    | connective _ | opening | closing => exact .inr (ih hc)

theorem isEmpty_render_iff (h : ofFilter fields f = .ok p) :
    p.render.isEmpty = true ↔ p.conditions = [] := by
  constructor
  · intro hempty
    obtain ⟨ts, hrender, hleaves⟩ := exists_tokens h
    refine List.eq_nil_iff_forall_not_mem.2 fun c hc => ?_
    rw [hrender, isEmpty_ofTokens (hleaves ▸ hc)] at hempty
    cases hempty
  · intro hconditions
    rw [render_of_reading?_eq_none ((reading?_eq_none_iff h).2 hconditions)]
    rfl

/-- Mention for mention, the conditions are what each contributes. -/
theorem exists_contributes (hj : Filter.ofJson j = .ok f) (h : ofFilter fields f = .ok p) :
    ∃ css, List.Forall₂ (Mention.Contributes fields) (Filter.mentions j) css ∧
      css.flatten = p.conditions := by
  obtain ⟨lss, hlss, hleaves⟩ := Filter.reads_ofJson j hj
  have hconditions := mapM_leaves h
  rw [← hleaves] at hconditions
  obtain ⟨css, hcss, hflatten⟩ := exists_of_mapM_flatten hconditions
  exact ⟨css, Mention.forall₂_contributes hlss hcss, hflatten⟩

/-- There is a condition if and only if some field is mentioned with an operator. -/
theorem conditions_eq_nil_iff (hj : Filter.ofJson j = .ok f) (h : ofFilter fields f = .ok p) :
    p.conditions = [] ↔ ∀ m ∈ Filter.mentions j, m.value = .obj [] := by
  obtain ⟨css, hcss, hflatten⟩ := exists_contributes hj h
  rw [← hflatten, List.flatten_eq_nil_iff]
  constructor
  · intro hempty m hm
    obtain ⟨cs, hcs, hcontributes⟩ := exists_of_forall₂ hcss hm
    exact hcontributes.nil_iff.1 (hempty cs hcs)
  · intro hempty cs hcs
    obtain ⟨m, hm, hcontributes⟩ := exists_of_forall₂ hcss.flip hcs
    exact (Mention.Contributes.nil_iff hcontributes).2 (hempty m hm)

end Predicate

/-! ## Statements that write -/

/-- How a delete begins. -/
def deleting (t : Table) : Fragment :=
  .raw s!"delete from {t.name}"

/-- How an update begins, with what it assigns. -/
def updating (t : Table) (assigned : List (Column × Value)) : Fragment :=
  (Fragment.raw s!"update {t.name} set").append
    (.join ", " (assigned.map fun (c, v) => UpdatePlan.assignment c v))

/-- The plan consists of what the clauses of the update have been resolved to. -/
structure UpdatePlan.Plans (s : Schema) (key : String) (q : Update) (p : UpdatePlan) : Prop where
  table : s.table key = .ok p.table
  given : ((q.sets.map fun sets => sets.object.members).getD []).isEmpty = false
  sets : (((q.sets.map fun sets => sets.object.members).getD []).mapM fun m => do
    let c ← p.table.column m.1
    return (c, ← c.encode m.2)) = .ok p.sets
  filter : q.filter.mapM (Predicate.ofFilter (.forWrite p.table)) = .ok p.filter
  returning : q.returning.mapM (Returning.plan p.table) = .ok p.returning

structure DeletePlan.Plans (s : Schema) (key : String) (q : Delete) (p : DeletePlan) : Prop where
  table : s.table key = .ok p.table
  filter : q.filter.mapM (Predicate.ofFilter (.forWrite p.table)) = .ok p.filter
  returning : q.returning.mapM (Returning.plan p.table) = .ok p.returning

theorem UpdatePlan.ofUpdate_eq_ok {s : Schema} {key : String} {q : Update} {p : UpdatePlan} :
    ofUpdate s key q = .ok p ↔ p.Plans s key q := by
  constructor
  · intro h
    obtain ⟨table, htable, h⟩ := bind_eq_ok.1 h
    dsimp only at h
    split at h
    · cases h
    rename_i hgiven
    obtain ⟨sets, hsets, h⟩ := bind_eq_ok.1 h
    obtain ⟨filter, hfilter, h⟩ := bind_eq_ok.1 h
    obtain ⟨returning, hreturning, h⟩ := bind_eq_ok.1 h
    cases h
    exact ⟨htable, Bool.eq_false_iff.2 hgiven, hsets, hfilter, hreturning⟩
  · intro h
    refine bind_eq_ok.2 ⟨p.table, h.table, ?_⟩
    dsimp only
    rw [if_neg (Bool.eq_false_iff.1 h.given)]
    exact bind_eq_ok.2 ⟨_, h.sets, bind_eq_ok.2 ⟨_, h.filter, bind_eq_ok.2 ⟨_, h.returning, rfl⟩⟩⟩

theorem DeletePlan.ofDelete_eq_ok {s : Schema} {key : String} {q : Delete} {p : DeletePlan} :
    ofDelete s key q = .ok p ↔ p.Plans s key q := by
  constructor
  · intro h
    obtain ⟨table, htable, h⟩ := bind_eq_ok.1 h
    obtain ⟨filter, hfilter, h⟩ := bind_eq_ok.1 h
    obtain ⟨returning, hreturning, h⟩ := bind_eq_ok.1 h
    cases h
    exact ⟨htable, hfilter, hreturning⟩
  · intro h
    exact bind_eq_ok.2 ⟨_, h.table, bind_eq_ok.2 ⟨_, h.filter,
      bind_eq_ok.2 ⟨_, h.returning, rfl⟩⟩⟩

/-- The statement has the condition of the filter behind its beginning if the JSON mentions a field
with an operator, and no condition else. -/
structure Filter.Guards (f : Filter) (j : Json) (t : Table) (start written : Fragment) : Prop where
  guarded : (∃ m ∈ mentions j, m.value ≠ .obj []) →
    ∃ p returning, Predicate.ofFilter (.forWrite t) f = .ok p ∧ p.render.isEmpty = false ∧
      written = ((start.appendRaw "where").append p.render).appendReturning returning
  unguarded : (∀ m ∈ mentions j, m.value = .obj []) →
    ∃ returning, written = start.appendReturning returning

namespace Filter

variable {j : Json} {f : Filter}

theorem guards_appendCondition (hj : ofJson j = .ok f) {t : Table} {p : Predicate}
    (h : Predicate.ofFilter (.forWrite t) f = .ok p) (start : Fragment)
    (returning : Option (List Column)) :
    f.Guards j t start ((start.appendCondition "where" (some p)).appendReturning returning) := by
  have hempty := (Predicate.isEmpty_render_iff h).trans (Predicate.conditions_eq_nil_iff hj h)
  constructor
  · rintro ⟨m, hm, hvalue⟩
    have hrender : p.render.isEmpty = false := by
      rw [← Bool.not_eq_true, hempty]
      exact fun hall => hvalue (hall m hm)
    refine ⟨p, returning, h, hrender, ?_⟩
    rw [Fragment.appendCondition]
    simp [hrender]
  · intro hall
    refine ⟨returning, ?_⟩
    rw [Fragment.appendCondition]
    simp [hempty.2 hall]

theorem guards_delete (hj : ofJson j = .ok f) {s : Schema} {key : String}
    {returning : Option Returning} {c : Compiled}
    (h : Delete.compile s key ⟨some f, returning⟩ = .ok c) :
    ∃ t, s.table key = .ok t ∧ f.Guards j t (deleting t) c.fragment := by
  obtain ⟨p, hp, h⟩ := bind_eq_ok.1 h
  cases h
  have hplans := DeletePlan.ofDelete_eq_ok.1 hp
  obtain ⟨predicate, hpredicate, hfilter⟩ := map_eq_ok.1 hplans.filter
  refine ⟨p.table, hplans.table, ?_⟩
  dsimp only
  rw [DeletePlan.render, ← hfilter]
  exact guards_appendCondition hj hpredicate _ p.returning

theorem guards_update (hj : ofJson j = .ok f) {s : Schema} {key : String} {sets : Option Sets}
    {returning : Option Returning} {c : Compiled}
    (h : Update.compile s key ⟨sets, some f, returning⟩ = .ok c) :
    ∃ t assigned, s.table key = .ok t ∧ f.Guards j t (updating t assigned) c.fragment := by
  obtain ⟨p, hp, h⟩ := bind_eq_ok.1 h
  cases h
  have hplans := UpdatePlan.ofUpdate_eq_ok.1 hp
  obtain ⟨predicate, hpredicate, hfilter⟩ := map_eq_ok.1 hplans.filter
  refine ⟨p.table, p.sets, hplans.table, ?_⟩
  dsimp only
  rw [UpdatePlan.render, ← hfilter]
  exact guards_appendCondition hj hpredicate _ p.returning

/-- A field that JSON mentions with operators resolves and stands in the SQL with a condition for
each of them; one without operators contributes nothing. So a delete or an update by JSON has a
condition if and only if a field is mentioned with an operator. -/
theorem conditions_of_mentions (hj : ofJson j = .ok f) :
    (∀ fields p, Predicate.ofFilter fields f = .ok p →
      ∃ css ts, List.Forall₂ (Mention.Contributes fields) (mentions j) css ∧
        p.render = .ofTokens ts ∧ Token.leaves ts = css.flatten ∧
        ∀ m ∈ mentions j, m.value ≠ .obj [] →
          ∃ c ∈ Token.leaves ts, fields.resolve m.field = .ok c.field) ∧
    (∀ s key returning c, Delete.compile s key ⟨some f, returning⟩ = .ok c →
      ∃ t, s.table key = .ok t ∧ f.Guards j t (deleting t) c.fragment) ∧
    ∀ s key sets returning c, Update.compile s key ⟨sets, some f, returning⟩ = .ok c →
      ∃ t assigned, s.table key = .ok t ∧ f.Guards j t (updating t assigned) c.fragment := by
  refine ⟨?_, fun _ _ _ _ => guards_delete hj, fun _ _ _ _ _ => guards_update hj⟩
  intro fields p hp
  obtain ⟨css, hcss, hflatten⟩ := Predicate.exists_contributes hj hp
  obtain ⟨ts, hrender, hleaves⟩ := Predicate.exists_tokens hp
  have htokens : Token.leaves ts = css.flatten := hleaves.trans hflatten.symm
  refine ⟨css, ts, hcss, hrender, htokens, fun m hm hvalue => ?_⟩
  obtain ⟨cs, hcs, hcontributes⟩ := exists_of_forall₂ hcss hm
  obtain ⟨c, hc⟩ := List.exists_mem_of_ne_nil cs fun hnil => hvalue (hcontributes.nil_iff.1 hnil)
  exact ⟨c, htokens ▸ List.mem_flatten_of_mem hcs hc, hcontributes.resolve hc⟩

end Filter

namespace Blog

/-- The author is mentioned with two operators, the id without one and with one. -/
def ofAuthors : Json :=
  .obj [("authorId", .obj [(">", .ofInt64 1), ("<", .ofInt64 9)]),
    ("$or", .arr [.obj [("id", .obj [])],
      .obj [("$and", .obj [("id", .obj [("==", .ofInt64 3)])])]])]

def byAuthors : Filter :=
  .group .and [.compare "authorId" .gt (.ofInt64 1), .compare "authorId" .lt (.ofInt64 9),
    .group .or [.group .and [], .group .and [.compare "id" .eq (.ofInt64 3)]]]

/-- A misspelt field, without operators. -/
def ofAuthorless : Json :=
  .obj [("author", .obj [])]

end Blog

theorem Filter.conditions_of_mentions_blog :
    Filter.ofJson Blog.ofAuthors = .ok Blog.byAuthors ∧
      (mentions Blog.ofAuthors).map Mention.field = ["authorId", "id", "id"] ∧
      (∃ p css ts, Predicate.ofFilter (.forWrite Blog.posts) Blog.byAuthors = .ok p ∧
        List.Forall₂ (Mention.Contributes (.forWrite Blog.posts)) (mentions Blog.ofAuthors) css ∧
        p.render = .ofTokens ts ∧ Token.leaves ts = css.flatten) ∧
      (∃ c t, Delete.compile Blog.schema "posts" ⟨some Blog.byAuthors, none⟩ = .ok c ∧
        c.fragment.sql = "delete from posts where author_id > ? and author_id < ? and id = ?" ∧
        Blog.byAuthors.Guards Blog.ofAuthors t (deleting t) c.fragment) := by
  have hj : Filter.ofJson Blog.ofAuthors = .ok Blog.byAuthors := rfl
  obtain ⟨htokens, hdelete, -⟩ := conditions_of_mentions hj
  refine ⟨hj, rfl, ?_, ?_⟩
  · obtain ⟨p, hp⟩ : ∃ p, Predicate.ofFilter (.forWrite Blog.posts) Blog.byAuthors = .ok p :=
      ⟨_, rfl⟩
    obtain ⟨css, ts, hcss, hrender, hleaves, -⟩ := htokens _ p hp
    exact ⟨p, css, ts, hp, hcss, hrender, hleaves⟩
  · obtain ⟨c, hc, hsql⟩ : ∃ c,
        Delete.compile Blog.schema "posts" ⟨some Blog.byAuthors, none⟩ = .ok c ∧
          c.fragment.sql = "delete from posts where author_id > ? and author_id < ? and id = ?" :=
      ⟨_, rfl, by decide⟩
    obtain ⟨t, ht, hguards⟩ := hdelete _ _ _ c hc
    cases ht
    exact ⟨c, _, hc, hsql, hguards⟩

/-- A field without operators is not looked for, and everything is deleted. -/
theorem Filter.deletes_all_of_bare_field :
    (mentions Blog.ofAuthorless).map Mention.field = ["author"] ∧
      (Fields.forWrite (Blog.posts.withKey "posts")).resolve "author" =
        .error (.columnNotFound "author") ∧
      Filter.ofJson Blog.ofAuthorless = .ok .empty ∧
      ∃ c, Delete.compile Blog.schema "posts" ⟨some .empty, none⟩ = .ok c ∧
        c.fragment.sql = "delete from posts" ∧ c.fragment.params = [] := by
  refine ⟨rfl, rfl, rfl, _, rfl, ?_, rfl⟩
  decide

end Tabula
