import Tabula.Proofs.Embedding.Plan
import Tabula.Proofs.Fragment

/-!
# Limits of embedded relations

The subquery of an embedding has a placeholder for each limit of the inclusion it is made for. The
rows of a relation to many are read from a query inside of the one that makes them into JSON, so
the limits of what is embedded in the rows come before the limit of the rows.
-/

namespace Tabula

namespace Inclusion

mutual

/-- The limits of a relation that is included: those inside of it, then its own. The limit of a
relation to one counts for nothing. -/
def limits (s : Schema) : Inclusion → Relation → Except Error (List Int64)
  | ⟨limit, relations⟩, r => do
    let referenced ← s.tableNamed r.referenced
    let inner ← limitsOf s relations referenced.key
    match r.kind with
    | .one => return inner
    | .many => return inner ++ limit.toList

/-- The limits of relations of the table of a key that are included, one after another. -/
def limitsOf (s : Schema) : List (String × Inclusion) → String → Except Error (List Int64)
  | [], _ => .ok []
  | (name, inner) :: rest, key => do
    let first ← limits s inner (← s.relation key name)
    return first ++ (← limitsOf s rest key)

end

end Inclusion

namespace Embedding

theorem params_object (e : Embedding) (nested : List Fragment) :
    (e.object nested).params = nested.flatMap Fragment.params := by
  have hcolumns : ∀ cs : List Column,
      (cs.map fun c => Fragment.raw s!"'{c.key}', {c.embedded e.label}").flatMap
        Fragment.params = [] := by
    intro cs
    simp [List.flatMap_map]
  simp [object, hcolumns]

theorem params_subquery (e : Embedding) (nested : List Fragment) :
    (e.subquery nested).params = nested.flatMap Fragment.params ++
      (match e.kind with
      | .one => []
      | .many => e.limit.toList.map Value.integer) := by
  unfold subquery
  cases e.kind with
  | one => simp [params_object]
  | many => cases e.limit <;> simp [params_object]

theorem params_properties (es : List (String × Embedding)) :
    (properties es).flatMap Fragment.params = es.flatMap fun e => e.2.render.params := by
  induction es with
  | nil => rfl
  | cons e es ih => simp [properties, ih]

mutual

/-- A subquery binds the limits of its inclusion. -/
theorem limits_of_ofRelation {s : Schema} : {i : Inclusion} → {r : Relation} → {parent : String} →
    {used used' : Nat} → {e : Embedding} → ofRelation s i r parent used = .ok (e, used') →
    List.map Value.integer <$> i.limits s r = .ok e.render.params
  | ⟨limit, relations⟩, r, parent, used, used', e, h => by
    obtain ⟨source, referenced, nested, pairs, -, hreferenced, hnested, -, rfl⟩ :=
      ofRelation_eq_ok.1 h
    obtain ⟨ns, hns, hparams⟩ := map_eq_ok.1 (limits_of_ofInclusions hnested)
    rw [Inclusion.limits, hreferenced, ok_bind, hns, ok_bind]
    cases hkind : r.kind with
    | one => simp [render, params_subquery, params_properties, hparams]
    | many => simp [render, params_subquery, params_properties, hparams]

theorem limits_of_ofInclusions {s : Schema} : {relations : List (String × Inclusion)} →
    {key parent : String} → {used used' : Nat} → {es : List (String × Embedding)} →
    ofInclusions s relations key parent used = .ok (es, used') →
    List.map Value.integer <$> Inclusion.limitsOf s relations key =
      .ok (es.flatMap fun e => e.2.render.params)
  | [], _, _, _, _, _, h => by
    obtain ⟨rfl, -⟩ := ofInclusions_nil_eq_ok.1 h
    rfl
  | (name, inner) :: rest, key, parent, used, used', es, h => by
    obtain ⟨r, e, used₁, others, hr, he, hothers, rfl⟩ := ofInclusions_cons_eq_ok.1 h
    obtain ⟨ns, hns, hparams⟩ := map_eq_ok.1 (limits_of_ofRelation he)
    obtain ⟨ms, hms, hparams'⟩ := map_eq_ok.1 (limits_of_ofInclusions hothers)
    rw [Inclusion.limitsOf, hr, ok_bind, hns, ok_bind, hms, ok_bind]
    simp [hparams, hparams']

end

end Embedding

end Tabula
