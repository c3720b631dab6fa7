import Tabula.Proofs.Filter.Leaves
import Tabula.Proofs.Filter.Grammar

/-!
# The meaning of a rendered filter

Parentheses stand only around a group inside of a group that has two children or more with a leaf.
Even so the text can be read in one way only, and that reading says what the filter says once its
subtrees without a leaf are gone.
-/

namespace Tabula

/-! ## What a filter says -/

namespace Filter

mutual

/-- The filter without the subtrees below it that have no leaf. -/
def pruned : Filter → Filter
  | .group c children => .group c (prunedAll children)
  | .compare field operator operand => .compare field operator operand

def prunedAll : List Filter → List Filter
  | [] => []
  | f :: rest => if f.isEmpty then prunedAll rest else f.pruned :: prunedAll rest

end

section Truth

variable {T : Type} (L : Logic T) (v : Nat → T)

mutual

/-- The truth value, where `v k` is the value of the leaf of number `k` and the first leaf has
number `n`. -/
def truth (n : Nat) : Filter → T
  | .group c children => truthAll c n children
  | .compare .. => v n

def truthAll (c : Connective) (n : Nat) : List Filter → T
  | [] => L.unit c
  | f :: rest => L.join c (f.truth n) (truthAll c (n + f.leaves.length) rest)

end

end Truth

mutual

theorem isEmpty_iff : (f : Filter) → (f.isEmpty = true ↔ f.leaves = [])
  | .group c children => by
    rw [isEmpty, leaves]
    exact allEmpty_iff children
  | .compare field operator operand => by simp [isEmpty, leaves]

theorem allEmpty_iff : (fs : List Filter) → (allEmpty fs = true ↔ leavesOf fs = [])
  | [] => by simp [allEmpty, leavesOf]
  | f :: rest => by
    rw [allEmpty, leavesOf, Bool.and_eq_true, List.append_eq_nil_iff, isEmpty_iff f,
      allEmpty_iff rest]

end

mutual

theorem leaves_pruned : (f : Filter) → f.pruned.leaves = f.leaves
  | .group c children => by
    rw [pruned, leaves, leaves]
    exact leavesOf_prunedAll children
  | .compare field operator operand => rfl

theorem leavesOf_prunedAll : (fs : List Filter) → leavesOf (prunedAll fs) = leavesOf fs
  | [] => rfl
  | f :: rest => by
    have ih := leaves_pruned f
    have ihs := leavesOf_prunedAll rest
    rw [prunedAll]
    split
    · rename_i hempty
      rw [leavesOf, (isEmpty_iff f).1 hempty, ihs, List.nil_append]
    · rw [leavesOf, leavesOf, ih, ihs]

end

theorem allEmpty_append (fs gs : List Filter) :
    allEmpty (fs ++ gs) = (allEmpty fs && allEmpty gs) := by
  induction fs with
  | nil => rfl
  | cons f fs ih => rw [List.cons_append, allEmpty, allEmpty, ih, Bool.and_assoc]

theorem leavesOf_append (fs gs : List Filter) :
    leavesOf (fs ++ gs) = leavesOf fs ++ leavesOf gs := by
  induction fs with
  | nil => rfl
  | cons f fs ih => rw [List.cons_append, leavesOf, leavesOf, ih, List.append_assoc]

theorem prunedAll_append (fs gs : List Filter) :
    prunedAll (fs ++ gs) = prunedAll fs ++ prunedAll gs := by
  induction fs with
  | nil => rfl
  | cons f fs ih =>
    rw [List.cons_append, prunedAll, prunedAll, ih]
    split
    · rfl
    · rfl

theorem truthAll_append {T : Type} (L : Logic T) (v : Nat → T) (c : Connective) (n : Nat)
    (fs gs : List Filter) :
    truthAll L v c n (fs ++ gs) =
      L.join c (truthAll L v c n fs) (truthAll L v c (n + (leavesOf fs).length) gs) := by
  induction fs generalizing n with
  | nil => exact (L.unit_join c _).symm
  | cons f fs ih =>
    rw [List.cons_append, truthAll, truthAll, ih, L.join_assoc, leavesOf, List.length_append,
      Nat.add_assoc]

end Filter

/-! ## The tokens of a rendered predicate -/

def Token.pieces : Token Condition → List Piece
  | .leaf c => c.render.pieces
  | .connective c => [.text c.separator]
  | .opening => [.text "("]
  | .closing => [.text ")"]

/-- The SQL of a sequence of tokens. -/
def Fragment.ofTokens (ts : List (Token Condition)) : Fragment :=
  ⟨ts.flatMap Token.pieces⟩

namespace Predicate

mutual

/-- A predicate as an operand, if it has a leaf. -/
def operand? : Predicate → Option (Operand Condition)
  | .group c children => Operand.grouped c (operands children)
  | .test condition => some (.leaf condition)

def operands : List Predicate → List (Operand Condition)
  | [] => []
  | p :: rest => p.operand?.toList ++ operands rest

end

/-- How a predicate that stands in no group is read, if it has a leaf. -/
def reading? : Predicate → Option (Disjunction Condition)
  | .group c children =>
    match operands children with
    | [] => none
    | o :: os => some (.chain c o os)
  | .test condition => some (.one (.one (.leaf condition)))

end Predicate

namespace Fragment

theorem ofTokens_append (ts us : List (Token Condition)) :
    ofTokens (ts ++ us) = (ofTokens ts).push (ofTokens us) := by
  simp [ofTokens, push]

theorem ofTokens_cons (t : Token Condition) (ts : List (Token Condition)) :
    ofTokens (t :: ts) = Fragment.push ⟨t.pieces⟩ (ofTokens ts) :=
  rfl

end Fragment

/-- A condition never renders to nothing. -/
theorem Condition.isEmpty_render (c : Condition) : c.render.isEmpty = false := by
  have hisNull : " is null" ≠ "" ∧ " is not null" ≠ "" := by decide
  obtain ⟨field, test⟩ := c
  cases test with
  | isNull => simp [render, Fragment.isEmpty, Fragment.raw, Piece.sql, toString, hisNull.1]
  | isNotNull => simp [render, Fragment.isEmpty, Fragment.raw, Piece.sql, toString, hisNull.2]
  | compare operator operand => exact Fragment.isEmpty_append rfl
  | among operator operands => exact Fragment.isEmpty_append rfl

namespace Operand

theorem isEmpty_ofTokens (o : Operand Condition) :
    (Fragment.ofTokens o.tokens).isEmpty = false := by
  cases o with
  | leaf c =>
    rw [tokens, Fragment.ofTokens_cons, Fragment.isEmpty_push]
    exact (Bool.and_eq_false_iff.2 (.inl c.isEmpty_render))
  | parens d => rfl

/-- Joined operands are joined SQL. -/
theorem ofTokens_tokensJoined (c : Connective) (os : List (Operand Condition)) :
    Fragment.ofTokens (tokensJoined c os) =
      Fragment.join c.separator (os.map fun o => Fragment.ofTokens o.tokens) := by
  induction os with
  | nil => rfl
  | cons o os ih =>
    cases os with
    | nil => rfl
    | cons o' os =>
      rw [tokensJoined, Fragment.ofTokens_append, Fragment.ofTokens_cons, ih]
      simp [Fragment.join, Fragment.pushRaw, Fragment.push, Fragment.raw, Token.pieces]

end Operand

namespace Predicate

/-! ## Rendering is writing tokens -/

mutual

theorem renderWithin_eq_ofTokens : (p : Predicate) →
    renderWithin true p =
      (p.operand?.map fun o => Fragment.ofTokens o.tokens).getD Fragment.empty
  | .group c children => by
    rw [renderWithin, operand?, renderParts_eq_ofTokens children]
    cases hoperands : operands children with
    | nil => rfl
    | cons o os =>
      cases os with
      | nil => rfl
      | cons o' os =>
        have hjoined := Operand.ofTokens_tokensJoined c (o :: o' :: os)
        rw [← hjoined, ← Disjunction.tokens_chain]
        simp [Operand.grouped, Operand.tokens, Fragment.ofTokens, Fragment.parens, Fragment.push,
          Fragment.pushRaw, Fragment.raw, Token.pieces]
  | .test condition => by
    simp [renderWithin, operand?, Operand.tokens, Fragment.ofTokens, Token.pieces]

theorem renderParts_eq_ofTokens : (ps : List Predicate) →
    renderParts ps = (operands ps).map fun o => Fragment.ofTokens o.tokens
  | [] => rfl
  | p :: rest => by
    have ih := renderWithin_eq_ofTokens p
    have ihs := renderParts_eq_ofTokens rest
    rw [renderParts, operands, ih, ihs]
    cases p.operand? with
    | none => rfl
    | some o => simp [Operand.isEmpty_ofTokens]

end

theorem render_eq_ofTokens {p : Predicate} {d : Disjunction Condition} (h : p.reading? = some d) :
    p.render = Fragment.ofTokens d.tokens := by
  cases p with
  | group c children =>
    rw [reading?] at h
    split at h
    · cases h
    · rename_i o os hoperands
      cases h
      rw [render, renderWithin, renderParts_eq_ofTokens, hoperands, Disjunction.tokens_chain,
        Operand.ofTokens_tokensJoined]
      rfl
  | test condition =>
    cases h
    simp [render, renderWithin, Disjunction.tokens, Conjunction.tokens, Operand.tokens,
      Fragment.ofTokens, Token.pieces]

theorem render_of_reading?_eq_none {p : Predicate} (h : p.reading? = none) :
    p.render = Fragment.empty := by
  cases p with
  | group c children =>
    rw [reading?] at h
    split at h
    · rename_i hoperands
      rw [render, renderWithin, renderParts_eq_ofTokens, hoperands]
      rfl
    · cases h
  | test condition => cases h

/-! ## The leaves -/

mutual

theorem leaves_operand? : (p : Predicate) →
    (p.operand?.toList.flatMap fun o => Token.leaves o.tokens) = p.conditions
  | .group c children => by
    rw [operand?, Operand.leaves_grouped, conditions]
    exact leaves_operands children
  | .test condition => rfl

theorem leaves_operands : (ps : List Predicate) →
    ((operands ps).flatMap fun o => Token.leaves o.tokens) = conditionsOf ps
  | [] => rfl
  | p :: rest => by
    have ih := leaves_operand? p
    have ihs := leaves_operands rest
    rw [operands, conditionsOf, List.flatMap_append, ih, ihs]

end

theorem leaves_reading? {p : Predicate} {d : Disjunction Condition} (h : p.reading? = some d) :
    Token.leaves d.tokens = p.conditions := by
  cases p with
  | group c children =>
    rw [reading?] at h
    split at h
    · cases h
    · rename_i o os hoperands
      cases h
      rw [Disjunction.tokens_chain, Operand.leaves_tokensJoined, ← hoperands, conditions]
      exact leaves_operands children
  | test condition =>
    cases h
    rfl

/-! ## The truth value -/

/-- The operands say what filters say that are joined by the same connective. -/
structure Say (os : List (Operand Condition)) (fs : List Filter) : Prop where
  nil : os = [] ↔ Filter.allEmpty fs = true
  size : Operand.sizeJoined os = (Filter.leavesOf fs).length
  truth : ∀ {T : Type} (L : Logic T) (v : Nat → T) (c : Connective) (n : Nat),
    Operand.truthJoined L v c n os = Filter.truthAll L v c n (Filter.prunedAll fs)

namespace Say

variable {os os' : List (Operand Condition)} {fs fs' : List Filter}

theorem append (h : Say os fs) (h' : Say os' fs') : Say (os ++ os') (fs ++ fs') where
  nil := by
    rw [List.append_eq_nil_iff, h.nil, h'.nil, Filter.allEmpty_append, Bool.and_eq_true]
  size := by
    rw [Operand.sizeJoined_append, h.size, h'.size, Filter.leavesOf_append, List.length_append]
  truth L v c n := by
    rw [Operand.truthJoined_append, h.truth, h'.truth, h.size, Filter.prunedAll_append,
      Filter.truthAll_append, Filter.leavesOf_prunedAll]

/-- A group is one operand, whatever the connective of the group that it stands in. -/
theorem grouped (h : Say os fs) (c : Connective) :
    Say (Operand.grouped c os).toList [.group c fs] where
  nil := by
    rw [Option.toList_eq_nil_iff, Operand.grouped_eq_none, h.nil]
    simp [Filter.allEmpty, Filter.isEmpty]
  size := by
    rw [Operand.sizeJoined_grouped, h.size]
    simp [Filter.leavesOf, Filter.leaves]
  truth L v c' n := by
    cases hgrouped : Operand.grouped c os with
    | none =>
      have hempty := h.nil.1 (Operand.grouped_eq_none.1 hgrouped)
      simp [Filter.prunedAll, Filter.isEmpty, hempty, Operand.truthJoined, Filter.truthAll]
    | some o =>
      have hempty : ¬Filter.allEmpty fs = true := by
        intro hempty
        rw [Operand.grouped_eq_none.2 (h.nil.2 hempty)] at hgrouped
        cases hgrouped
      have htruth := Operand.truth_grouped L v n hgrouped
      rw [h.truth] at htruth
      simp [Filter.prunedAll, Filter.isEmpty, hempty, Operand.truthJoined, Filter.truthAll,
        Filter.pruned, Filter.truth, htruth]

/-- A condition says what its leaf says. -/
theorem leaf (condition : Condition) (field : String) (operator : Operator) (operand : Json) :
    Say [.leaf condition] [.compare field operator operand] where
  nil := by simp [Filter.allEmpty, Filter.isEmpty]
  size := rfl
  truth _ _ _ _ := rfl

end Say

mutual

theorem say_operand? {fields : Fields} : (f : Filter) → {p : Predicate} →
    ofFilter fields f = .ok p → Say p.operand?.toList [f]
  | .group c children, p, h => by
    obtain ⟨ps, hps, rfl⟩ := map_eq_ok.1 h
    exact (say_operands children hps).grouped c
  | .compare key operator operand, p, h => by
    obtain ⟨condition, -, rfl⟩ := map_eq_ok.1 h
    exact .leaf condition key operator operand

theorem say_operands {fields : Fields} : (fs : List Filter) → {ps : List Predicate} →
    ofFilters fields fs = .ok ps → Say (operands ps) fs
  | [], ps, h => by
    cases h
    exact ⟨by simp [operands, Filter.allEmpty], rfl, fun _ _ _ _ => rfl⟩
  | f :: rest, ps, h => by
    obtain ⟨p, hp, h⟩ := bind_eq_ok.1 h
    obtain ⟨ps', hps, h⟩ := bind_eq_ok.1 h
    cases h
    exact (say_operand? f hp).append (say_operands rest hps)

end

/-- A reading says what the filter says. -/
theorem truth_reading? {fields : Fields} {f : Filter} {p : Predicate}
    (h : ofFilter fields f = .ok p) {d : Disjunction Condition} (hd : p.reading? = some d)
    {T : Type} (L : Logic T) (v : Nat → T) : d.truth L v 0 = f.pruned.truth L v 0 := by
  cases f with
  | group c children =>
    obtain ⟨ps, hps, rfl⟩ := map_eq_ok.1 h
    rw [reading?] at hd
    split at hd
    · cases hd
    · rename_i o os hoperands
      cases hd
      rw [Disjunction.truth_chain, ← hoperands]
      exact (say_operands children hps).truth L v c 0
  | compare field operator operand =>
    obtain ⟨condition, -, rfl⟩ := map_eq_ok.1 h
    cases hd
    rfl

theorem reading?_eq_none {fields : Fields} {f : Filter} {p : Predicate}
    (h : ofFilter fields f = .ok p) : p.reading? = none ↔ f.leaves = [] := by
  rw [← Filter.isEmpty_iff]
  cases f with
  | group c children =>
    obtain ⟨ps, hps, rfl⟩ := map_eq_ok.1 h
    rw [Filter.isEmpty, ← (say_operands children hps).nil, reading?]
    split
    · rename_i hoperands
      simp [hoperands]
    · rename_i hoperands
      simp [hoperands]
  | compare field operator operand =>
    obtain ⟨condition, -, rfl⟩ := map_eq_ok.1 h
    simp [reading?, Filter.isEmpty]

/-- The SQL of a filter with leaves is a sequence of tokens around those leaves, in their order. It
can be read, and however it is read it says what the filter says. -/
theorem reads_as_filter {fields : Fields} {f : Filter} {p : Predicate}
    (h : ofFilter fields f = .ok p) :
    (f.leaves = [] → p.render = .empty) ∧
    (f.leaves ≠ [] → ∃ ts, p.render = .ofTokens ts ∧
      f.leaves.mapM (Leaf.condition fields) = .ok (Token.leaves ts) ∧
      (∃ d : Disjunction Condition, d.tokens = ts) ∧
      ∀ d : Disjunction Condition, d.tokens = ts →
        ∀ {T : Type} (L : Logic T) (v : Nat → T), d.truth L v 0 = f.pruned.truth L v 0) := by
  have hnone := reading?_eq_none h
  constructor
  · intro hleaves
    exact render_of_reading?_eq_none (hnone.2 hleaves)
  · intro hleaves
    obtain ⟨d, hd⟩ := Option.ne_none_iff_exists'.1 (mt hnone.1 hleaves)
    have hconditions := conditions_ofFilter fields f
    rw [h, map_ok, ← leaves_reading? hd] at hconditions
    refine ⟨d.tokens, render_eq_ofTokens hd, hconditions.symm, ⟨d, rfl⟩, ?_⟩
    intro d' htokens T L v
    rw [Disjunction.tokens_injective htokens]
    exact truth_reading? h hd L v

/-- A filter with subtrees without leaves, groups of one child and groups of several. -/
def nestedFilter : Filter :=
  .group .and [
    .group .or [.compare "id" .isIn (.arr [.null, .bool true]), .group .and [.group .or []],
      .group .and [.compare "active" .ne .null, .compare "id" .lt (.bool true)]],
    .group .or [.group .and [], .group .or [.compare "active" .eq (.bool false)]]]

def nestedFields : Fields :=
  ⟨none, [("id", ⟨"id", { name := "id", key := "id", kind := .integer }⟩),
    ("active", ⟨"is_active", { name := "is_active", key := "active", kind := .boolean }⟩)]⟩

theorem reads_as_filter_nested :
    ∃ p, ofFilter nestedFields nestedFilter = .ok p ∧
      p.render.sql =
        "(id in (?, ?) or (is_active is not null and id < ?)) and is_active = ?" ∧
      ∃ ts, p.render = .ofTokens ts ∧ (∃ d : Disjunction Condition, d.tokens = ts) ∧
        ∀ d : Disjunction Condition, d.tokens = ts →
          (∀ v, d.truth .boolean v 0 = nestedFilter.pruned.truth .boolean v 0) ∧
          (∀ v, d.truth .threeValued v 0 = nestedFilter.pruned.truth .threeValued v 0) := by
  obtain ⟨p, hp, hsql⟩ : ∃ p, ofFilter nestedFields nestedFilter = .ok p ∧ p.render.sql =
      "(id in (?, ?) or (is_active is not null and id < ?)) and is_active = ?" :=
    ⟨_, rfl, by decide⟩
  obtain ⟨ts, hrender, -, hread, htruth⟩ := (reads_as_filter hp).2 (by decide)
  exact ⟨p, hp, hsql, ts, hrender, hread, fun d hd =>
    ⟨htruth d hd .boolean, htruth d hd .threeValued⟩⟩

end Predicate

end Tabula
