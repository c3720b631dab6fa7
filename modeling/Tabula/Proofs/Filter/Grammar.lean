import Tabula.Statement.Filter

/-!
# The grammar of conditions

The store reads a condition as leaves, connectives and parentheses: a disjunction of conjunctions
of operands, where an operand is a leaf or a disjunction in parentheses. So `and` binds tighter than
`or`. A sequence of tokens has at most one reading (`Disjunction.tokens_injective`), and a reading
has a truth value in every `Logic`, given one for each leaf.
-/

namespace Tabula

/-! ## Truth values -/

/-- Truth values with what the connectives make of them. -/
structure Logic (T : Type) where
  join : Connective → T → T → T
  /-- The value of a group of no conditions. -/
  unit : Connective → T
  join_assoc : ∀ c a b d, join c (join c a b) d = join c a (join c b d)
  unit_join : ∀ c a, join c (unit c) a = a
  join_unit : ∀ c a, join c a (unit c) = a

/-- The truth values of SQL. -/
inductive Truth where
  | no
  | unknown
  | yes
deriving DecidableEq

namespace Logic

def boolean : Logic Bool where
  join
    | .and, a, b => a && b
    | .or, a, b => a || b
  unit
    | .and => true
    | .or => false
  join_assoc := by
    intro c a b d
    cases c
    · exact Bool.and_assoc a b d
    · exact Bool.or_assoc a b d
  unit_join := by
    intro c a
    cases c <;> rfl
  join_unit := by
    intro c a
    cases c
    · exact Bool.and_true a
    · exact Bool.or_false a

/-- What is known of one side may decide a connective even if the other side is unknown. -/
def threeValued : Logic Truth where
  join
    | .and, .no, _ | .and, _, .no => .no
    | .and, .unknown, _ | .and, _, .unknown => .unknown
    | .and, .yes, .yes => .yes
    | .or, .yes, _ | .or, _, .yes => .yes
    | .or, .unknown, _ | .or, _, .unknown => .unknown
    | .or, .no, .no => .no
  unit
    | .and => .yes
    | .or => .no
  join_assoc := by
    intro c a b d
    cases c <;> cases a <;> cases b <;> cases d <;> rfl
  unit_join := by
    intro c a
    cases c <;> cases a <;> rfl
  join_unit := by
    intro c a
    cases c <;> cases a <;> rfl

end Logic

/-! ## Readings -/

/-- What a condition is made of as the store reads it. -/
inductive Token (α : Type) where
  | leaf (a : α)
  | connective (c : Connective)
  | opening
  | closing

/-- The leaf that a token is. -/
def Token.leaf? {α : Type} : Token α → Option α
  | leaf a => some a
  | _ => none

/-- The leaves among tokens, from left to right. -/
def Token.leaves {α : Type} (ts : List (Token α)) : List α :=
  ts.filterMap leaf?

mutual

inductive Disjunction (α : Type) where
  | one (c : Conjunction α)
  | or (c : Conjunction α) (d : Disjunction α)

inductive Conjunction (α : Type) where
  | one (o : Operand α)
  | and (o : Operand α) (c : Conjunction α)

inductive Operand (α : Type) where
  | leaf (a : α)
  | parens (d : Disjunction α)

end

variable {α : Type}

mutual

def Disjunction.tokens : Disjunction α → List (Token α)
  | .one c => c.tokens
  | .or c d => c.tokens ++ .connective .or :: d.tokens

def Conjunction.tokens : Conjunction α → List (Token α)
  | .one o => o.tokens
  | .and o c => o.tokens ++ .connective .and :: c.tokens

def Operand.tokens : Operand α → List (Token α)
  | .leaf a => [.leaf a]
  | .parens d => .opening :: (d.tokens ++ [.closing])

end

mutual

def Disjunction.size : Disjunction α → Nat
  | .one c => c.size
  | .or c d => c.size + d.size

def Conjunction.size : Conjunction α → Nat
  | .one o => o.size
  | .and o c => o.size + c.size

def Operand.size : Operand α → Nat
  | .leaf _ => 1
  | .parens d => d.size

end

section Truth

variable {T : Type} (L : Logic T) (v : Nat → T)

mutual

/-- The truth value, where `v k` is the value of the leaf of number `k` and the first leaf has
number `n`. -/
def Disjunction.truth (n : Nat) : Disjunction α → T
  | .one c => c.truth n
  | .or c d => L.join .or (c.truth n) (d.truth (n + c.size))

def Conjunction.truth (n : Nat) : Conjunction α → T
  | .one o => o.truth n
  | .and o c => L.join .and (o.truth n) (c.truth (n + o.size))

def Operand.truth (n : Nat) : Operand α → T
  | .leaf _ => v n
  | .parens d => d.truth n

end

end Truth

/-! ## At most one reading -/

mutual

/-- A conjunction ends where no `and` follows it, a disjunction where no connective follows it. -/
theorem Disjunction.eq_of_append : (d d' : Disjunction α) → {rest rest' : List (Token α)} →
    (∀ c, rest.head? ≠ some (.connective c)) → (∀ c, rest'.head? ≠ some (.connective c)) →
    d.tokens ++ rest = d'.tokens ++ rest' → d = d' ∧ rest = rest'
  | .one c, .one c', _, _, h, h', heq => by
    obtain ⟨rfl, rfl⟩ := Conjunction.eq_of_append c c' (h .and) (h' .and) heq
    exact ⟨rfl, rfl⟩
  | .one c, .or c' d', _, _, h, _, heq => by
    rw [Disjunction.tokens, Disjunction.tokens, List.append_assoc] at heq
    obtain ⟨rfl, rfl⟩ := Conjunction.eq_of_append c c' (h .and) (by simp) heq
    exact absurd rfl (h .or)
  | .or c d, .one c', _, _, _, h', heq => by
    rw [Disjunction.tokens, Disjunction.tokens, List.append_assoc] at heq
    obtain ⟨rfl, rfl⟩ := Conjunction.eq_of_append c c' (by simp) (h' .and) heq
    exact absurd rfl (h' .or)
  | .or c d, .or c' d', _, _, h, h', heq => by
    rw [Disjunction.tokens, Disjunction.tokens, List.append_assoc, List.append_assoc] at heq
    obtain ⟨rfl, hrest⟩ := Conjunction.eq_of_append c c' (by simp) (by simp) heq
    obtain ⟨rfl, rfl⟩ := Disjunction.eq_of_append d d' h h' (List.cons.inj hrest).2
    exact ⟨rfl, rfl⟩

theorem Conjunction.eq_of_append : (c c' : Conjunction α) → {rest rest' : List (Token α)} →
    rest.head? ≠ some (.connective .and) → rest'.head? ≠ some (.connective .and) →
    c.tokens ++ rest = c'.tokens ++ rest' → c = c' ∧ rest = rest'
  | .one o, .one o', _, _, _, _, heq => by
    obtain ⟨rfl, rfl⟩ := Operand.eq_of_append o o' heq
    exact ⟨rfl, rfl⟩
  | .one o, .and o' c', _, _, h, _, heq => by
    rw [Conjunction.tokens, Conjunction.tokens, List.append_assoc] at heq
    obtain ⟨rfl, rfl⟩ := Operand.eq_of_append o o' heq
    exact absurd rfl h
  | .and o c, .one o', _, _, _, h', heq => by
    rw [Conjunction.tokens, Conjunction.tokens, List.append_assoc] at heq
    obtain ⟨rfl, rfl⟩ := Operand.eq_of_append o o' heq
    exact absurd rfl h'
  | .and o c, .and o' c', _, _, h, h', heq => by
    rw [Conjunction.tokens, Conjunction.tokens, List.append_assoc, List.append_assoc] at heq
    obtain ⟨rfl, hrest⟩ := Operand.eq_of_append o o' heq
    obtain ⟨rfl, rfl⟩ := Conjunction.eq_of_append c c' h h' (List.cons.inj hrest).2
    exact ⟨rfl, rfl⟩

theorem Operand.eq_of_append : (o o' : Operand α) → {rest rest' : List (Token α)} →
    o.tokens ++ rest = o'.tokens ++ rest' → o = o' ∧ rest = rest'
  | .leaf a, .leaf a', _, _, heq => by
    obtain ⟨ha, rfl⟩ := List.cons.inj heq
    cases ha
    exact ⟨rfl, rfl⟩
  | .leaf a, .parens d', _, _, heq => by
    cases (List.cons.inj heq).1
  | .parens d, .leaf a', _, _, heq => by
    cases (List.cons.inj heq).1
  | .parens d, .parens d', _, _, heq => by
    simp only [Operand.tokens, List.cons_append, List.append_assoc] at heq
    have hinside := (List.cons.inj heq).2
    obtain ⟨rfl, hrest⟩ := Disjunction.eq_of_append d d' (by simp) (by simp) hinside
    exact ⟨rfl, (List.cons.inj hrest).2⟩

end

/-- Tokens are read in at most one way. -/
theorem Disjunction.tokens_injective {d d' : Disjunction α} (h : d.tokens = d'.tokens) :
    d = d' := by
  have happend : d.tokens ++ [] = d'.tokens ++ [] := by rw [h]
  exact (eq_of_append d d' (by simp) (by simp) happend).1

/-! ## Operands in a row -/

def Conjunction.chain (o : Operand α) : List (Operand α) → Conjunction α
  | [] => .one o
  | o' :: os => .and o (chain o' os)

def Disjunction.chain (c : Connective) (o : Operand α) (os : List (Operand α)) : Disjunction α :=
  match c, os with
  | .and, os => .one (.chain o os)
  | .or, [] => .one (.one o)
  | .or, o' :: os => .or (.one o) (chain .or o' os)

/-- Operands that are joined by a connective, as one operand: alone as it is, else in
parentheses. -/
def Operand.grouped (c : Connective) : List (Operand α) → Option (Operand α)
  | [] => none
  | [o] => some o
  | o :: o' :: os => some (.parens (.chain c o (o' :: os)))

/-- The tokens of operands with a connective between them. -/
def Operand.tokensJoined (c : Connective) : List (Operand α) → List (Token α)
  | [] => []
  | [o] => o.tokens
  | o :: o' :: os => o.tokens ++ .connective c :: tokensJoined c (o' :: os)

def Operand.sizeJoined : List (Operand α) → Nat
  | [] => 0
  | o :: os => o.size + sizeJoined os

/-- The truth value of operands that are joined, numbered one after another. -/
def Operand.truthJoined {T : Type} (L : Logic T) (v : Nat → T) (c : Connective) (n : Nat) :
    List (Operand α) → T
  | [] => L.unit c
  | o :: os => L.join c (o.truth L v n) (truthJoined L v c (n + o.size) os)

theorem Disjunction.tokens_chain (c : Connective) (o : Operand α) (os : List (Operand α)) :
    (chain c o os).tokens = Operand.tokensJoined c (o :: os) := by
  induction os generalizing o with
  | nil => cases c <;> rfl
  | cons o' os ih =>
    cases c with
    | and => simpa [chain, tokens, Conjunction.chain, Conjunction.tokens, Operand.tokensJoined]
        using ih o'
    | or => simpa [chain, tokens, Conjunction.tokens, Operand.tokensJoined] using ih o'

theorem Disjunction.size_chain (c : Connective) (o : Operand α) (os : List (Operand α)) :
    (chain c o os).size = Operand.sizeJoined (o :: os) := by
  induction os generalizing o with
  | nil => cases c <;> rfl
  | cons o' os ih =>
    rw [Operand.sizeJoined, ← ih o']
    cases c with
    | and => rw [chain, chain, size, size, Conjunction.chain, Conjunction.size]
    | or => rw [chain, size, Conjunction.size]

theorem Disjunction.truth_chain {T : Type} (L : Logic T) (v : Nat → T) (c : Connective)
    (o : Operand α) (os : List (Operand α)) (n : Nat) :
    (chain c o os).truth L v n = Operand.truthJoined L v c n (o :: os) := by
  induction os generalizing o n with
  | nil => cases c <;> exact (L.join_unit _ _).symm
  | cons o' os ih =>
    have hnext := ih o' (n + o.size)
    cases c with
    | and =>
      rw [chain, truth] at hnext
      rw [chain, truth, Conjunction.chain, Conjunction.truth, hnext]
      rfl
    | or =>
      rw [chain, truth, Conjunction.truth, Conjunction.size, hnext]
      rfl

/-- The leaves of joined operands are theirs, one after another. -/
theorem Operand.leaves_tokensJoined (c : Connective) (os : List (Operand α)) :
    Token.leaves (tokensJoined c os) = os.flatMap fun o => Token.leaves o.tokens := by
  induction os with
  | nil => rfl
  | cons o os ih =>
    cases os with
    | nil => simp [tokensJoined]
    | cons o' os =>
      rw [List.flatMap_cons, ← ih]
      simp [tokensJoined, Token.leaves, Token.leaf?, List.filterMap_cons]

theorem Operand.sizeJoined_append (os os' : List (Operand α)) :
    sizeJoined (os ++ os') = sizeJoined os + sizeJoined os' := by
  induction os with
  | nil => exact (Nat.zero_add _).symm
  | cons o os ih => rw [List.cons_append, sizeJoined, sizeJoined, ih, Nat.add_assoc]

theorem Operand.truthJoined_append {T : Type} (L : Logic T) (v : Nat → T) (c : Connective) (n : Nat)
    (os os' : List (Operand α)) :
    truthJoined L v c n (os ++ os') =
      L.join c (truthJoined L v c n os) (truthJoined L v c (n + sizeJoined os) os') := by
  induction os generalizing n with
  | nil => exact (L.unit_join c _).symm
  | cons o os ih =>
    rw [List.cons_append, truthJoined, truthJoined, ih, L.join_assoc, sizeJoined, Nat.add_assoc]

section Grouped

variable {c : Connective} {os : List (Operand α)} {o : Operand α}

theorem Operand.grouped_eq_none : grouped c os = none ↔ os = [] := by
  cases os with
  | nil => simp [grouped]
  | cons o os => cases os <;> simp [grouped]

theorem Operand.leaves_grouped :
    ((grouped c os).toList.flatMap fun o => Token.leaves o.tokens) =
      os.flatMap fun o => Token.leaves o.tokens := by
  rcases os with _ | ⟨o₁, _ | ⟨o₂, os⟩⟩
  · rfl
  · rfl
  · rw [← leaves_tokensJoined c (o₁ :: o₂ :: os), ← Disjunction.tokens_chain]
    simp [grouped, tokens, Token.leaves, Token.leaf?, List.filterMap_cons]

theorem Operand.sizeJoined_grouped : sizeJoined (grouped c os).toList = sizeJoined os := by
  rcases os with _ | ⟨o₁, _ | ⟨o₂, os⟩⟩
  · rfl
  · rfl
  · exact Disjunction.size_chain c o₁ (o₂ :: os)

theorem Operand.truth_grouped {T : Type} (L : Logic T) (v : Nat → T) (n : Nat)
    (h : grouped c os = some o) : o.truth L v n = truthJoined L v c n os := by
  rcases os with _ | ⟨o₁, _ | ⟨o₂, os⟩⟩
  · cases h
  · cases h
    exact (L.join_unit c _).symm
  · cases h
    exact Disjunction.truth_chain L v c o₁ (o₂ :: os) n

end Grouped

end Tabula
