import Tabula.Plan.Embedding
import Tabula.Proofs.Except

/-!
# How embeddings are planned

The plan of an embedding is made in steps that may fail. Here is what the steps have found once
there is a plan.
-/

namespace Tabula.Embedding

variable {s : Schema}

theorem ofRelation_eq_ok {limit : Option Int64} {relations : List (String × Inclusion)}
    {r : Relation} {parent : String} {used used' : Nat} {e : Embedding} :
    ofRelation s ⟨limit, relations⟩ r parent used = .ok (e, used') ↔
      ∃ source referenced nested pairs,
        s.tableNamed r.source = .ok source ∧ s.tableNamed r.referenced = .ok referenced ∧
        ofInclusions s relations referenced.key s!"r{used + 1}" (used + 1) = .ok (nested, used') ∧
        pairsOf source referenced r = .ok pairs ∧
        e = ⟨r.kind, referenced, s!"r{used + 1}", parent, pairs, limit, nested⟩ := by
  simp only [ofRelation, bind_eq_ok, pure_eq_ok]
  constructor
  · rintro ⟨source, hsource, referenced, hreferenced, ⟨nested, used''⟩, hnested, pairs, hpairs, h⟩
    cases h
    exact ⟨source, referenced, nested, pairs, hsource, hreferenced, hnested, hpairs, rfl⟩
  · rintro ⟨source, referenced, nested, pairs, hsource, hreferenced, hnested, hpairs, rfl⟩
    exact ⟨source, hsource, referenced, hreferenced, (nested, used'), hnested, pairs, hpairs, rfl⟩

/-- The embedding reads the table that the relation leads to. -/
theorem tableNamed_of_ofRelation {i : Inclusion} {r : Relation} {parent : String} {used used' : Nat}
    {e : Embedding} (h : ofRelation s i r parent used = .ok (e, used')) :
    s.tableNamed r.referenced = .ok e.table := by
  cases i with
  | mk limit relations =>
    obtain ⟨source, referenced, nested, pairs, -, hreferenced, -, -, rfl⟩ := ofRelation_eq_ok.1 h
    exact hreferenced

theorem parent_of_ofRelation {i : Inclusion} {r : Relation} {parent : String} {used used' : Nat}
    {e : Embedding} (h : ofRelation s i r parent used = .ok (e, used')) : e.parent = parent := by
  cases i with
  | mk limit relations =>
    obtain ⟨source, referenced, nested, pairs, -, -, -, -, rfl⟩ := ofRelation_eq_ok.1 h
    rfl

theorem ofInclusions_nil_eq_ok {key parent : String} {used used' : Nat}
    {es : List (String × Embedding)} :
    ofInclusions s [] key parent used = .ok (es, used') ↔ es = [] ∧ used' = used := by
  rw [ofInclusions, Except.ok.injEq, Prod.mk.injEq, eq_comm, eq_comm (a := used)]

theorem ofInclusions_cons_eq_ok {name key parent : String} {inner : Inclusion}
    {rest : List (String × Inclusion)} {used used' : Nat} {es : List (String × Embedding)} :
    ofInclusions s ((name, inner) :: rest) key parent used = .ok (es, used') ↔
      ∃ r e used₁ others, s.relation key name = .ok r ∧
        ofRelation s inner r parent used = .ok (e, used₁) ∧
        ofInclusions s rest key parent used₁ = .ok (others, used') ∧
        es = (name, e) :: others := by
  simp only [ofInclusions, bind_eq_ok, pure_eq_ok]
  constructor
  · rintro ⟨r, hr, ⟨e, used₁⟩, he, ⟨others, used₂⟩, hothers, h⟩
    cases h
    exact ⟨r, e, used₁, others, hr, he, hothers, rfl⟩
  · rintro ⟨r, e, used₁, others, hr, he, hothers, rfl⟩
    exact ⟨r, hr, (e, used₁), he, (others, used'), hothers, rfl⟩

/-- One after another, there is an embedding for each relation. -/
theorem planned_of_ofInclusions {key parent : String} :
    {relations : List (String × Inclusion)} → {es : List (String × Embedding)} →
    {used used' : Nat} → ofInclusions s relations key parent used = .ok (es, used') →
    List.Forall₂ (fun i e => e.1 = i.1 ∧ ∃ r used used', s.relation key i.1 = .ok r ∧
      ofRelation s i.2 r parent used = .ok (e.2, used')) relations es
  | [], es, used, used', h => by
    obtain ⟨rfl, -⟩ := ofInclusions_nil_eq_ok.1 h
    exact .nil
  | (name, inner) :: rest, es, used, used', h => by
    obtain ⟨r, e, used₁, others, hr, he, hothers, rfl⟩ := ofInclusions_cons_eq_ok.1 h
    exact .cons ⟨rfl, r, used, used₁, hr, he⟩ (planned_of_ofInclusions hothers)

/-- The embeddings go by the names that are included. -/
theorem names_of_ofInclusions {relations : List (String × Inclusion)}
    {es : List (String × Embedding)} {key parent : String} {used used' : Nat}
    (h : ofInclusions s relations key parent used = .ok (es, used')) :
    es.map Prod.fst = Keyed.keys relations :=
  (map_eq_map_of_forall₂ (fun _ _ hi => hi.1.symm) (planned_of_ofInclusions h)).symm

end Tabula.Embedding
