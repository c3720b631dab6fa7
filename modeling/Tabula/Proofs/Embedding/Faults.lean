import Tabula.Result.Embedded
import Tabula.Proofs.Calendar.Instant
import Tabula.Proofs.Embedding.Plan

/-!
# How reading a row fails

The store may hold values that do not fit their column. Once an embedding has been planned, its rows
fail to be read for such a value or for a text that is no JSON, and for no other reason: every name
that reading looks up has been found while planning.
-/

namespace Tabula

/-- The failure is that of a value that has been read, not of a name that has not been found. -/
inductive Error.OfValue : Error → Prop where
  | payload : OfValue .malformedPayload
  | mapping {fault : MappingFault} (h : ∀ column, fault ≠ .missingColumn column) :
    OfValue (.mapping fault)

/-! ## Columns -/

namespace ColumnKind

variable {kind : ColumnKind} {fault : MappingFault}

theorem missing_of_decode {v : Value} (h : kind.decode v = .error fault) (column : String) :
    fault ≠ .missingColumn column := by
  rintro rfl
  cases kind with
  | date =>
    cases v with
    | integer n => cases Instant.format_eq_error (map_eq_error.1 h)
    | real x => cases Instant.format_eq_error (map_eq_error.1 h)
    | null | text s | blob bytes => cases h
  | integer | text | real | blob | boolean => cases h

theorem missing_of_decodeEmbedded {j : Json} (h : kind.decodeEmbedded j = .error fault)
    (column : String) : fault ≠ .missingColumn column := by
  rintro rfl
  cases kind with
  | blob =>
    cases j with
    | str s =>
      simp only [decodeEmbedded, decodeHex] at h
      split at h
      · cases h
      · split at h <;> cases h
    | null | bool b | number n | arr items | obj members => cases h
  | boolean =>
    change decode boolean (.ofJson j) = _ at h
    exact missing_of_decode h column rfl
  | date =>
    change decode date (.ofJson j) = _ at h
    exact missing_of_decode h column rfl
  | integer | text | real => cases h

end ColumnKind

namespace Column

variable {c : Column} {e : Error}

theorem ofValue_of_decode {v : Value} (h : c.decode v = .error e) : e.OfValue := by
  obtain ⟨fault, hfault, rfl⟩ := mapError_eq_error.1 h
  exact .mapping (ColumnKind.missing_of_decode hfault)

theorem ofValue_of_decodeEmbedded {j : Json} (h : c.decodeEmbedded j = .error e) : e.OfValue := by
  obtain ⟨fault, hfault, rfl⟩ := mapError_eq_error.1 h
  exact .mapping (ColumnKind.missing_of_decodeEmbedded hfault)

end Column

/-! ## Included rows -/

namespace Relation

variable {s : Schema} {r : Relation} {t : Table} {e : Error}

/-- Whatever is looked up by a name that has a decoder is found, and read or refused for its
value. -/
def ReadsIn (s : Schema) (t : Table) (inner : Decoders) : Prop :=
  ∀ name decode, inner.get? name = some decode →
    ∃ r, s.relation t.key name = .ok r ∧ ∀ j e, decode r j = .error e → e.OfValue

theorem ofValue_of_payload {j : Json} (h : payload j = .error e) : e.OfValue := by
  unfold payload at h
  split at h
  · split at h
    · cases h
    · cases h
      exact .payload
  · cases h

theorem ofValue_of_decodeMembers {inner : Decoders} (hinner : ReadsIn s t inner)
    {members : List (String × Json)} (h : decodeMembers s t inner members = .error e) :
    e.OfValue := by
  obtain ⟨⟨name, j⟩, -, h⟩ := exists_of_mapM_eq_error h
  dsimp only at h
  split at h
  · rcases bind_eq_error.1 h with h | ⟨decoded, -, h⟩
    · exact Column.ofValue_of_decodeEmbedded h
    · cases h
  split at h
  · rename_i decode hdecode
    obtain ⟨r, hr, hread⟩ := hinner name decode hdecode
    rw [hr, ok_bind] at h
    rcases bind_eq_error.1 h with h | ⟨decoded, -, h⟩
    · exact hread j e h
    · cases h
  · cases h

theorem ofValue_of_decodeRows {inner : Decoders} (ht : s.tableNamed r.referenced = .ok t)
    (hinner : ReadsIn s t inner) {j : Json} (h : decodeRows s inner r j = .error e) :
    e.OfValue := by
  unfold decodeRows at h
  rcases bind_eq_error.1 h with h | ⟨rows, -, h⟩
  · exact ofValue_of_payload h
  rw [ht, ok_bind] at h
  split at h
  · rcases bind_eq_error.1 h with h | ⟨members, -, h⟩
    · exact ofValue_of_decodeMembers hinner h
    · cases h
  · cases h
  · rcases bind_eq_error.1 h with h | ⟨all, -, h⟩
    · obtain ⟨item, -, hitem⟩ := exists_of_mapM_eq_error h
      split at hitem
      · exact ofValue_of_decodeMembers hinner (map_eq_error.1 hitem)
      · cases hitem
        exact .mapping (by simp)
    · cases h
  · cases h

mutual

/-- The rows of a planned embedding are read or refused for their values. -/
theorem ofValue_of_decode : (i : Inclusion) → {r : Relation} → {found : Embedding} →
    {parent : String} → {used used' : Nat} →
    Embedding.ofRelation s i r parent used = .ok (found, used') →
    (j : Json) → (e : Error) → decode s i r j = .error e → e.OfValue
  | ⟨limit, relations⟩, r, found, parent, used, used', hplan, j, e, h => by
    obtain ⟨source, t, nested, pairs, -, ht, hnested, -, -⟩ := Embedding.ofRelation_eq_ok.1 hplan
    exact ofValue_of_decodeRows ht (readsIn_decoders relations hnested) h

theorem readsIn_decoders : (relations : List (String × Inclusion)) → {t : Table} →
    {es : List (String × Embedding)} → {parent : String} → {used used' : Nat} →
    Embedding.ofInclusions s relations t.key parent used = .ok (es, used') →
    ReadsIn s t (decoders s relations)
  | [], t, es, parent, used, used', _, name, d, hget => by
    cases hget
  | (key, i) :: rest, t, es, parent, used, used', hplan, name, d, hget => by
    obtain ⟨r, found, used₁, others, hr, hfound, hothers, -⟩ :=
      Embedding.ofInclusions_cons_eq_ok.1 hplan
    rw [decoders, Keyed.get?] at hget
    split at hget
    · rename_i hkey
      cases hget
      exact ⟨r, hkey ▸ hr, ofValue_of_decode i hfound⟩
    · exact readsIn_decoders rest hothers name d hget

end

end Relation

end Tabula
