import Tabula.Column.Codec
import Tabula.Proofs.Text.Hex

/-!
# Columns of included rows

What `Column.embedded` puts into JSON is read back as the stored value itself is.
-/

namespace Tabula

/-- The value of a column once it is in JSON, as `Column.embedded` says it. -/
def Column.embed (c : Column) (v : Value) : Json :=
  match c.kind, v with
  | .blob, .blob bytes => .str (Hex.upper bytes)
  | _, v => v.toJson

/-- What a column may store so that it can be embedded: blobs only where the column says so, and no
real without a number in JSON. -/
def Column.Embeddable (c : Column) : Value → Prop
  | .null => True
  | .blob _ => c.kind = .blob
  | .real x => c.kind ≠ .blob ∧ ∃ y, x = .finite y
  | .integer _ | .text _ => c.kind ≠ .blob

theorem Json.Number.int64?_ofInt64 (n : Int64) : (ofInt64 n).int64? = some n := by
  have hlt := n.toInt_lt
  rw [ofInt64, int64?, if_pos (by omega), Int64.ofInt_toInt]

theorem Value.ofNumber_ofInt64 (n : Int64) : ofNumber (.ofInt64 n) = integer n := by
  rw [ofNumber, Json.Number.int64?_ofInt64]

/-- JSON keeps every value that is no blob. -/
theorem Value.ofJson_toJson {v : Value} (hblob : ∀ bytes, v ≠ .blob bytes)
    (hreal : ∀ x, v = .real x → ∃ y, x = .finite y) : ofJson v.toJson = v := by
  cases v with
  | integer n => exact ofNumber_ofInt64 n
  | real x =>
    obtain ⟨y, rfl⟩ := hreal x rfl
    rfl
  | text s => rfl
  | blob bytes => exact absurd rfl (hblob bytes)
  | null => rfl

theorem ColumnKind.decodeHex_upper (bytes : List UInt8) :
    decodeHex (Hex.upper bytes) = .ok (.ofBytes bytes) := by
  rw [decodeHex, Hex.utf8ByteSize_upper, if_neg (by omega), Hex.bytes?_upper]

/-- An embedded value reads the same as the stored one. -/
theorem Column.decodeEmbedded_embed {c : Column} {v : Value} (h : c.Embeddable v) :
    c.decodeEmbedded (c.embed v) = c.decode v := by
  have hreal : ∀ x, v = .real x → ∃ y, x = .finite y := by
    rintro x rfl
    exact h.2
  unfold decodeEmbedded decode
  congr 1
  by_cases hblob : ∃ bytes, v = .blob bytes
  · obtain ⟨bytes, rfl⟩ := hblob
    have hkind : c.kind = .blob := h
    simp only [embed, hkind]
    exact ColumnKind.decodeHex_upper bytes
  · have hjson : Value.ofJson v.toJson = v :=
      Value.ofJson_toJson (fun bytes hv => hblob ⟨bytes, hv⟩) hreal
    have hembed : c.embed v = v.toJson := by
      unfold embed
      split
      · exact absurd ⟨_, rfl⟩ hblob
      · rfl
    rw [hembed]
    cases hkind : c.kind with
    | boolean => rw [ColumnKind.decodeEmbedded, hjson]
    | date => rw [ColumnKind.decodeEmbedded, hjson]
    | blob =>
      -- next to a blob such a column only stores null
      cases v with
      | integer n => exact absurd hkind h
      | real x => exact absurd hkind h.1
      | text s => exact absurd hkind h
      | blob bytes => exact absurd ⟨bytes, rfl⟩ hblob
      | null => rfl
    | integer | text | real => rfl

end Tabula
