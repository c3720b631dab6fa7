import Tabula.Proofs.Filter.Mentions

/-!
# An object and the object in `$and`

The members of an object contribute their filters to one conjunction; in `$and` each member is a
filter of its own, so a field with several operators becomes a group inside of the group. The texts
can differ in parentheses, but they bind the same values and can only be read to the same effect.
-/

namespace Tabula

namespace Filter

/-! ## Reading members one by one -/

/-- What each member contributes. -/
def contributions (members : List (String × Json)) : Except StatementFault (List (List Filter)) :=
  members.mapM fun m => ofMember m.1 m.2

theorem ofMembers_eq (members : List (String × Json)) :
    ofMembers members = List.flatten <$> contributions members := by
  induction members with
  | nil => rfl
  | cons m members ih =>
    rw [contributions] at ih ⊢
    rw [ofMembers, ih, List.mapM_cons]
    cases ofMember m.1 m.2 with
    | error e => rfl
    | ok first => cases members.mapM fun m => ofMember m.1 m.2 <;> rfl

theorem ofEntries_eq (members : List (String × Json)) :
    ofEntries members = List.map conjunction <$> contributions members := by
  induction members with
  | nil => rfl
  | cons m members ih =>
    rw [contributions] at ih ⊢
    rw [ofEntries, ih, List.mapM_cons]
    cases ofMember m.1 m.2 with
    | error e => rfl
    | ok first => cases members.mapM fun m => ofMember m.1 m.2 <;> rfl

theorem ofJson_obj (members : List (String × Json)) :
    ofJson (.obj members) = (fun fss => conjunction fss.flatten) <$> contributions members := by
  rw [ofJson, ofMembers_eq]
  cases contributions members <;> rfl

theorem ofJson_wrapped (members : List (String × Json)) :
    ofJson (.obj [("$and", .obj members)]) =
      (fun fss => .group .and (fss.map conjunction)) <$> contributions members := by
  have hkey : Connective.ofKey? "$and" = some .and := rfl
  rw [ofJson, ofMembers, ofMember, hkey]
  dsimp only
  rw [ofEntries_eq]
  cases contributions members <;> rfl

/-! ## Conjunctions of conjunctions -/

theorem prunedAll_eq_nil {fs : List Filter} (h : leavesOf fs = []) : prunedAll fs = [] := by
  induction fs with
  | nil => rfl
  | cons f fs ih =>
    rw [leavesOf, List.append_eq_nil_iff] at h
    rw [prunedAll, if_pos (f.isEmpty_iff.2 h.1), ih h.2]

variable {T : Type} (L : Logic T) (v : Nat → T)

theorem truth_conjunction {fs : List Filter} (h : leavesOf fs ≠ []) (n : Nat) :
    (conjunction fs).pruned.truth L v n = truthAll L v .and n (prunedAll fs) := by
  unfold conjunction
  split
  · rename_i f
    rw [leavesOf, leavesOf, List.append_nil, Ne, ← isEmpty_iff] at h
    rw [prunedAll, if_neg h, prunedAll, truthAll, truthAll, L.join_unit]
  · rfl

theorem truthAll_conjunction (fs gs : List Filter) (n : Nat) :
    truthAll L v .and n (prunedAll (conjunction fs :: gs)) =
      truthAll L v .and n (prunedAll fs ++ prunedAll gs) := by
  have hleaves := leaves_conjunction fs
  -- Without a leaf the conjunction is pruned away, and so is each of its members.
  by_cases hempty : leavesOf fs = []
  · rw [prunedAll, if_pos (isEmpty_iff _ |>.2 (hleaves.trans hempty)), prunedAll_eq_nil hempty,
      List.nil_append]
  · rw [prunedAll, if_neg (by rwa [isEmpty_iff, hleaves]), truthAll, truth_conjunction L v hempty,
      truthAll_append, leaves_pruned, hleaves, leavesOf_prunedAll]

/-- Conjunctions may be joined one by one or all at once. -/
theorem truthAll_map_conjunction (fss : List (List Filter)) (n : Nat) :
    truthAll L v .and n (prunedAll (fss.map conjunction)) =
      truthAll L v .and n (prunedAll fss.flatten) := by
  induction fss generalizing n with
  | nil => rfl
  | cons fs fss ih =>
    rw [List.map_cons, truthAll_conjunction, truthAll_append, ih, List.flatten_cons,
      prunedAll_append, truthAll_append]

theorem leavesOf_map_conjunction (fss : List (List Filter)) :
    leavesOf (fss.map conjunction) = leavesOf fss.flatten := by
  induction fss with
  | nil => rfl
  | cons fs fss ih =>
    rw [List.map_cons, leavesOf, leaves_conjunction, ih, List.flatten_cons, leavesOf_append]

/-- The filters have the same leaves, and say the same if there are any. -/
structure Alike (f g : Filter) : Prop where
  leaves : f.leaves = g.leaves
  truth : f.leaves ≠ [] → ∀ {T : Type} (L : Logic T) (v : Nat → T),
    f.pruned.truth L v 0 = g.pruned.truth L v 0

theorem alike_of_contributions (fss : List (List Filter)) :
    Alike (conjunction fss.flatten) (.group .and (fss.map conjunction)) where
  leaves := by rw [leaves_conjunction, Filter.leaves, leavesOf_map_conjunction]
  truth hleaves _ L v := by
    rw [leaves_conjunction] at hleaves
    rw [truth_conjunction L v hleaves, pruned, Filter.truth, truthAll_map_conjunction]

end Filter

/-! ## SQL -/

namespace Predicate

/-- Neither has a text, or both are tokens around the same conditions that can be read, and every
reading of one has the truth value of every reading of the other. -/
inductive ReadsAlike (p q : Predicate) : Prop
  | nothing (hp : p.render = .empty) (hq : q.render = .empty)
  | tokens {ts us : List (Token Condition)} (hp : p.render = .ofTokens ts)
    (hq : q.render = .ofTokens us) (hleaves : Token.leaves ts = Token.leaves us)
    (hts : ∃ d : Disjunction Condition, d.tokens = ts)
    (hus : ∃ d : Disjunction Condition, d.tokens = us)
    (htruth : ∀ d d' : Disjunction Condition, d.tokens = ts → d'.tokens = us →
      ∀ {T : Type} (L : Logic T) (v : Nat → T), d.truth L v 0 = d'.truth L v 0)

end Predicate

namespace Filter.Alike

open Predicate

variable {f g : Filter} {fields : Fields} {p q : Predicate}

theorem map_conditions (h : f.Alike g) (fields : Fields) :
    conditions <$> ofFilter fields f = conditions <$> ofFilter fields g := by
  rw [conditions_ofFilter, conditions_ofFilter, h.leaves]

theorem conditions_eq (h : f.Alike g) (hp : ofFilter fields f = .ok p)
    (hq : ofFilter fields g = .ok q) : p.conditions = q.conditions := by
  have hconditions := h.map_conditions fields
  rw [hp, hq] at hconditions
  exact Except.ok.inj hconditions

theorem readsAlike (h : f.Alike g) (hp : ofFilter fields f = .ok p)
    (hq : ofFilter fields g = .ok q) : p.ReadsAlike q := by
  by_cases hleaves : f.leaves = []
  · exact .nothing (render_of_reading?_eq_none ((reading?_eq_none hp).2 hleaves))
      (render_of_reading?_eq_none ((reading?_eq_none hq).2 (h.leaves ▸ hleaves)))
  · obtain ⟨d, hd⟩ := Option.ne_none_iff_exists'.1 (mt (reading?_eq_none hp).1 hleaves)
    obtain ⟨d', hd'⟩ :=
      Option.ne_none_iff_exists'.1 (mt (reading?_eq_none hq).1 (h.leaves ▸ hleaves))
    refine .tokens (render_eq_ofTokens hd) (render_eq_ofTokens hd') ?_ ⟨d, rfl⟩ ⟨d', rfl⟩ ?_
    · rw [leaves_reading? hd, leaves_reading? hd', h.conditions_eq hp hq]
    · -- Tokens have one reading only, so whatever reads them is the reading of the filter.
      intro e e' he he' T L v
      rw [Disjunction.tokens_injective he, Disjunction.tokens_injective he', truth_reading? hp hd,
        truth_reading? hq hd', h.truth hleaves]

end Filter.Alike

/-- The object in `$and` is read if the object is, and fails with the same error; the filters are
rendered together, or fail with the same error, bind the same values and can only be read to the
same effect. -/
theorem Filter.wrapped_alike (members : List (String × Json)) :
    ((∃ f, ofJson (.obj members) = .ok f) ↔
      ∃ g, ofJson (.obj [("$and", .obj members)]) = .ok g) ∧
    (∀ e, ofJson (.obj members) = .error e ↔
      ofJson (.obj [("$and", .obj members)]) = .error e) ∧
    ∀ f g, ofJson (.obj members) = .ok f → ofJson (.obj [("$and", .obj members)]) = .ok g →
      ∀ fields,
        ((∃ p, Predicate.ofFilter fields f = .ok p) ↔ ∃ q, Predicate.ofFilter fields g = .ok q) ∧
        (∀ e, Predicate.ofFilter fields f = .error e ↔ Predicate.ofFilter fields g = .error e) ∧
        ∀ p q, Predicate.ofFilter fields f = .ok p → Predicate.ofFilter fields g = .ok q →
          p.render.params = q.render.params ∧ p.ReadsAlike q := by
  rw [ofJson_obj, ofJson_wrapped]
  cases hfss : contributions members with
  | error e => simp
  | ok fss =>
    refine ⟨by simp, by simp, ?_⟩
    rintro f g ⟨⟩ ⟨⟩ fields
    have halike := alike_of_contributions fss
    have hmap := halike.map_conditions fields
    refine ⟨?_, fun e => ?_, fun p q hp hq => ⟨?_, halike.readsAlike hp hq⟩⟩
    · rw [← exists_map_eq_ok (f := Predicate.conditions), hmap, exists_map_eq_ok]
    · rw [← map_eq_error (f := Predicate.conditions), hmap, map_eq_error]
    · rw [Predicate.params_render, Predicate.params_render, halike.conditions_eq hp hq]

namespace Blog

/-- As read from `$and`, with the comparisons of the author in a group of their own. -/
def byGroupedAuthors : Filter :=
  .group .and [
    .group .and [.compare "authorId" .gt (.ofInt64 1), .compare "authorId" .lt (.ofInt64 9)],
    .group .or [.group .and [], .group .and [.compare "id" .eq (.ofInt64 3)]]]

end Blog

theorem Filter.wrapped_alike_blog :
    ofJson Blog.ofAuthors = .ok Blog.byAuthors ∧
      ofJson (.obj [("$and", Blog.ofAuthors)]) = .ok Blog.byGroupedAuthors ∧
      ∃ p q, Predicate.ofFilter (.forWrite Blog.posts) Blog.byAuthors = .ok p ∧
        Predicate.ofFilter (.forWrite Blog.posts) Blog.byGroupedAuthors = .ok q ∧
        p.render.sql = "author_id > ? and author_id < ? and id = ?" ∧
        q.render.sql = "(author_id > ? and author_id < ?) and id = ?" ∧
        p.render.params = q.render.params ∧ p.ReadsAlike q := by
  have hf : ofJson Blog.ofAuthors = .ok Blog.byAuthors := rfl
  have hg : ofJson (.obj [("$and", Blog.ofAuthors)]) = .ok Blog.byGroupedAuthors := rfl
  obtain ⟨p, hp, hpsql⟩ : ∃ p, Predicate.ofFilter (.forWrite Blog.posts) Blog.byAuthors = .ok p ∧
      p.render.sql = "author_id > ? and author_id < ? and id = ?" := ⟨_, rfl, by decide⟩
  obtain ⟨q, hq, hqsql⟩ : ∃ q,
      Predicate.ofFilter (.forWrite Blog.posts) Blog.byGroupedAuthors = .ok q ∧
        q.render.sql = "(author_id > ? and author_id < ?) and id = ?" := ⟨_, rfl, by decide⟩
  obtain ⟨-, -, hsame⟩ := (wrapped_alike _).2.2 Blog.byAuthors Blog.byGroupedAuthors hf hg
    (.forWrite Blog.posts)
  exact ⟨hf, hg, p, q, hp, hq, hpsql, hqsql, hsame p q hp hq⟩

end Tabula
