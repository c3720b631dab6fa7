import Tabula.Statement.Inclusion
import Tabula.Proofs.Schema.Assembled

/-!
# Inclusions that can be planned

Inclusions are built by `Inclusion.including`, which names no relation twice. One that `Resolves`
names relations of the tables it leads through, none of them by the key of a column.
-/

namespace Tabula.Inclusion

/-! ## Names -/

mutual

/-- No relation is named twice. -/
def Distinct : Inclusion → Prop
  | ⟨_, relations⟩ => (Keyed.keys relations).Nodup ∧ DistinctAll relations

def DistinctAll : List (String × Inclusion) → Prop
  | [] => True
  | (_, inner) :: rest => inner.Distinct ∧ DistinctAll rest

end

theorem distinctAll_put {name : String} {inner : Inclusion} (hinner : inner.Distinct) :
    (relations : List (String × Inclusion)) → DistinctAll relations →
    DistinctAll (Keyed.put name inner relations)
  | [], _ => ⟨hinner, trivial⟩
  | (key, i) :: rest, ⟨hi, hrest⟩ => by
    rw [Keyed.put]
    split
    · exact ⟨hinner, hrest⟩
    · exact ⟨hi, distinctAll_put hinner rest hrest⟩

theorem distinct_empty : empty.Distinct :=
  ⟨List.nodup_nil, trivial⟩

theorem distinct_withLimit {i : Inclusion} {limit : Int64} (h : i.Distinct) :
    (i.withLimit limit).Distinct := by
  cases i
  exact h

theorem distinct_including {i inner : Inclusion} {name : String} (h : i.Distinct)
    (hinner : inner.Distinct) : (i.including name inner).Distinct := by
  cases i with
  | mk limit relations =>
    obtain ⟨hnodup, hall⟩ := h
    exact ⟨Keyed.nodup_keys_put hnodup name inner, distinctAll_put hinner relations hall⟩

mutual

theorem distinct_addMember : (key : String) → (j : Json) → {i i' : Inclusion} → i.Distinct →
    addMember i key j = .ok i' → i'.Distinct
  | key, .null, i, i', hi, h => by
    cases h
    exact hi
  | key, .bool false, i, i', hi, h => by
    cases h
    exact hi
  | key, .bool true, i, i', hi, h => by
    cases h
    exact distinct_including hi distinct_empty
  | key, .obj members, i, i', hi, h => by
    rw [addMember] at h
    obtain ⟨inner, hinner, h⟩ := bind_eq_ok.1 h
    cases h
    exact distinct_including hi (distinct_addMembers members distinct_empty hinner)
  | key, .number n, i, i', hi, h => by
    unfold addMember at h
    split at h
    · split at h
      · cases h
        exact distinct_withLimit hi
      · cases h
    · cases h
  | key, .str s, i, i', hi, h => by
    cases h
  | key, .arr items, i, i', hi, h => by
    cases h

theorem distinct_addMembers : (members : List (String × Json)) → {i i' : Inclusion} → i.Distinct →
    addMembers i members = .ok i' → i'.Distinct
  | [], i, i', hi, h => by
    cases h
    exact hi
  | (key, j) :: rest, i, i', hi, h => by
    rw [addMembers] at h
    obtain ⟨i₁, hi₁, h⟩ := bind_eq_ok.1 h
    exact distinct_addMembers rest (distinct_addMember key j hi hi₁) h

end

/-- What is read from JSON names no relation twice. -/
theorem distinct_ofJson {j : Json} {i : Inclusion} (h : ofJson j = .ok i) : i.Distinct := by
  cases j with
  | obj members => exact distinct_addMembers members distinct_empty h
  | _ => cases h

/-! ## Resolving -/

mutual

/-- Every name is that of a relation of the table it is named for, and not of one of its columns;
and so on for the tables that the relations lead to. -/
def Resolves (s : Schema) : Inclusion → Table → Prop
  | ⟨_, relations⟩, t => ResolvesAll s relations t

def ResolvesAll (s : Schema) : List (String × Inclusion) → Table → Prop
  | [], _ => True
  | (name, inner) :: rest, t =>
    t.column? name = none ∧
      (∃ r referenced, s.relation t.key name = .ok r ∧
        s.tableNamed r.referenced = .ok referenced ∧ inner.Resolves s referenced) ∧
      ResolvesAll s rest t

end

end Tabula.Inclusion
