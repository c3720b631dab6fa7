import Tabula.Proofs.Column.Embedded
import Tabula.Proofs.Column.RoundTrip
import Tabula.Proofs.Double.Nearest

/-!
# The two ways a column is read

A value of a column is read as it is stored, or from the JSON of an included row. Both ways agree on
everything that a column has taken, unless a blob column has taken what is no array: such a value is
stored as it came, and an included row has it as its bytes.
-/

namespace Tabula

/-! ## JSON as stored values -/

namespace Value

theorem exists_finite_of_ofNumber {n : Json.Number} {x : Double} (h : ofNumber n = real x) :
    ∃ y, x = .finite y := by
  unfold ofNumber at h
  split at h
  · cases h
  · rename_i hnone
    cases h
    cases n with
    | real y => exact ⟨y, rfl⟩
    | int n range =>
      rw [Json.Number.int64?, ite_eq_right_iff] at hnone
      have hlarge : 9223372036854775808 ≤ n := by
        by_contra hsigned
        cases hnone (by omega)
      obtain ⟨y, hy, -⟩ := Double.exists_finite_ofInt hlarge range.2
      exact ⟨y, hy⟩

theorem exists_finite_of_ofJson {j : Json} {x : Double} (h : ofJson j = real x) :
    ∃ y, x = .finite y := by
  cases j with
  | number n => exact exists_finite_of_ofNumber h
  | null | bool _ | str _ | arr _ | obj _ => cases h

theorem ofNumber_ne {v : Value} (hinteger : ∀ i, integer i ≠ v) (hreal : ∀ x, real x ≠ v)
    (n : Json.Number) : ofNumber n ≠ v := by
  unfold ofNumber
  split
  · exact hinteger _
  · exact hreal _

theorem ofJson_ne_blob (j : Json) (bytes : List UInt8) : ofJson j ≠ blob bytes := by
  intro h
  cases j with
  | number n =>
    refine ofNumber_ne ?_ ?_ n h
    · exact nofun
    · exact nofun
  | null | bool _ | str _ | arr _ | obj _ => cases h

theorem ofJson_ne_null {j : Json} (hj : j ≠ .null) : ofJson j ≠ null := by
  intro h
  cases j with
  | number n =>
    refine ofNumber_ne ?_ ?_ n h
    · exact nofun
    · exact nofun
  | null => exact hj rfl
  | bool _ | str _ | arr _ | obj _ => cases h

end Value

namespace Column

variable {c : Column} {v : Json} {stored : Value}

/-! ## What a column has taken -/

theorem embeddable_of_kind (hkind : c.kind ≠ .blob) (hblob : ∀ bytes, stored ≠ .blob bytes)
    (hreal : ∀ x, stored = .real x → ∃ y, x = .finite y) : c.Embeddable stored := by
  cases stored with
  | integer n => exact hkind
  | real x => exact ⟨hkind, hreal x rfl⟩
  | text s => exact hkind
  | blob bytes => exact absurd rfl (hblob bytes)
  | null => trivial

theorem embeddable_of_encode (hkind : c.kind ≠ .blob) (h : c.encode v = .ok stored) :
    c.Embeddable stored := by
  replace h := mapError_eq_ok.1 h
  cases hk : c.kind with
  | blob => exact absurd hk hkind
  | date =>
    rw [hk] at h
    rcases ColumnKind.encodeDate_eq_ok h with ⟨-, rfl⟩ | ⟨n, rfl, -⟩
    · trivial
    · exact hkind
  | integer | text | real | boolean =>
    rw [hk] at h
    cases h
    exact embeddable_of_kind hkind (Value.ofJson_ne_blob v) fun x => Value.exists_finite_of_ofJson

theorem embeddable_of_array (hkind : c.kind = .blob) (hv : v = .null ∨ v.isArray)
    (h : c.encode v = .ok stored) : c.Embeddable stored := by
  replace h := mapError_eq_ok.1 h
  rw [hkind] at h
  cases v with
  | null =>
    cases h
    trivial
  | arr items =>
    obtain ⟨bytes, -, rfl⟩ := map_eq_ok.1 h
    exact hkind
  | bool _ | number _ | str _ | obj _ => simp [Json.isArray] at hv

/-- What is no array a blob column stores as it comes. -/
theorem eq_ofJson_of_encode (hkind : c.kind = .blob) (hv : ¬(v = .null ∨ v.isArray))
    (h : c.encode v = .ok stored) : stored = .ofJson v := by
  replace h := mapError_eq_ok.1 h
  rw [hkind] at h
  cases v with
  | arr items => exact absurd (.inr rfl) hv
  | null | bool _ | number _ | str _ | obj _ =>
    cases h
    rfl

/-! ## What an included row has of it -/

end Column

section Payload

variable (realText : Double → String)

/-- The bytes of a text. -/
def Text.bytes (s : String) : List UInt8 :=
  s.toList.flatMap String.utf8EncodeChar

/-- The bytes whose hexadecimal text the store gives: those of a blob, and the UTF-8 of the text of
any other value. How it writes a real as text is left open. -/
def Value.hexBytes : Value → List UInt8
  | integer n => Text.bytes (toString n.toInt)
  | real x => Text.bytes (realText x)
  | text s => Text.bytes s
  | blob bytes => bytes
  | null => []

/-- The value of a column in JSON, as the SQL of `Column.embedded` says it of any value. -/
def Column.payload (c : Column) (stored : Value) : Json :=
  match c.kind, stored with
  | .blob, .null => .null
  | .blob, v => .str (Hex.upper (v.hexBytes realText))
  | _, v => v.toJson

end Payload

namespace Column

variable {c : Column} {v : Json} {stored : Value} (realText : Double → String)

theorem payload_of_embeddable (h : c.Embeddable stored) :
    c.payload realText stored = c.embed stored := by
  unfold payload embed
  cases hkind : c.kind with
  | blob =>
    cases stored with
    | integer n => exact absurd hkind h
    | real x => exact absurd hkind h.1
    | text s => exact absurd hkind h
    | blob bytes => rfl
    | null => rfl
  | integer | text | real | boolean | date => cases stored <;> rfl

theorem payload_blob (hkind : c.kind = .blob) (hnull : stored ≠ .null) :
    c.payload realText stored = .str (Hex.upper (stored.hexBytes realText)) := by
  unfold payload
  rw [hkind]
  cases stored with
  | null => exact absurd rfl hnull
  | integer _ | real _ | text _ | blob _ => rfl

/-- A blob column reads the bytes of what it has stored from an included row, whatever it is. -/
theorem decodeEmbedded_payload_blob (hkind : c.kind = .blob) (hnull : stored ≠ .null) :
    c.decodeEmbedded (c.payload realText stored) = .ok (.ofBytes (stored.hexBytes realText)) := by
  rw [payload_blob realText hkind hnull, decodeEmbedded, hkind]
  exact congrArg (Except.mapError Error.mapping) (ColumnKind.decodeHex_upper _)

theorem decode_blob (hkind : c.kind = .blob) (stored : Value) :
    c.decode stored = .ok stored.toJson := by
  rw [decode, hkind]
  rfl

theorem toJson_ne_ofBytes (hblob : ∀ bytes, stored ≠ .blob bytes) (bytes : List UInt8) :
    stored.toJson ≠ .ofBytes bytes := by
  intro h
  cases stored with
  | blob b => exact hblob b rfl
  | real x => cases x <;> cases h
  | integer _ | text _ | null => cases h

/-- The two ways of reading what a column has taken agree, unless a blob column has taken what is no
array. Then both succeed: one gives what is stored, the other its bytes. -/
theorem decodeEmbedded_payload_iff (h : c.encode v = .ok stored) :
    (c.decodeEmbedded (c.payload realText stored) = c.decode stored ↔
        (c.kind = .blob → v = .null ∨ v.isArray)) ∧
      (c.kind = .blob → ¬(v = .null ∨ v.isArray) →
        c.decode stored = .ok stored.toJson ∧
          c.decodeEmbedded (c.payload realText stored) =
            .ok (.ofBytes (stored.hexBytes realText))) := by
  by_cases htaken : c.kind = .blob → v = .null ∨ v.isArray
  · have hembeddable : c.Embeddable stored := by
      by_cases hkind : c.kind = .blob
      · exact embeddable_of_array hkind (htaken hkind) h
      · exact embeddable_of_encode hkind h
    refine ⟨iff_of_true ?_ htaken, fun hkind hneither => absurd (htaken hkind) hneither⟩
    rw [payload_of_embeddable realText hembeddable, decodeEmbedded_embed hembeddable]
  · obtain ⟨hkind, hneither⟩ := Classical.not_imp.1 htaken
    obtain rfl := eq_ofJson_of_encode hkind hneither h
    have hnull : Value.ofJson v ≠ .null := Value.ofJson_ne_null fun hv => hneither (.inl hv)
    have hplain := decode_blob hkind (.ofJson v)
    have hbytes := decodeEmbedded_payload_blob realText hkind hnull
    refine ⟨iff_of_false ?_ htaken, fun _ _ => ⟨hplain, hbytes⟩⟩
    rw [hbytes, hplain]
    intro hsame
    exact toJson_ne_ofBytes (Value.ofJson_ne_blob v) _ (Except.ok.inj hsame).symm

theorem decodeEmbedded_payload_iff_bytes :
    let c : Column := { name := "avatar", key := "avatar", kind := .blob }
    c.encode (.ofBytes [0, 171, 255]) = .ok (.blob [0, 171, 255]) ∧
      c.payload Double.plain (.blob [0, 171, 255]) = .str "00ABFF" ∧
      c.decodeEmbedded (c.payload Double.plain (.blob [0, 171, 255])) =
        c.decode (.blob [0, 171, 255]) := by
  intro c
  have hencode : c.encode (.ofBytes [0, 171, 255]) = .ok (.blob [0, 171, 255]) :=
    mapError_eq_ok.2 (ColumnKind.encodeBlob_ofBytes _)
  have harray : (Json.ofBytes [0, 171, 255]).isArray := rfl
  have hagree := decodeEmbedded_payload_iff Double.plain hencode
  exact ⟨hencode, by rfl, hagree.1.2 fun _ => .inr harray⟩

/-- A text in a blob column is read as the text, or as its bytes. -/
theorem decodes_apart_of_blob_text :
    let c : Column := { name := "avatar", key := "avatar", kind := .blob }
    c.encode (.str "abc") = .ok (.text "abc") ∧ c.decode (.text "abc") = .ok (.str "abc") ∧
      c.payload Double.plain (.text "abc") = .str "616263" ∧
      c.decodeEmbedded (.str "616263") = .ok (.ofBytes [97, 98, 99]) ∧
      c.decodeEmbedded (c.payload Double.plain (.text "abc")) ≠ c.decode (.text "abc") := by
  intro c
  have hplain : c.decode (.text "abc") = .ok (.str "abc") := by rfl
  have hbytes : Text.bytes "abc" = [97, 98, 99] := by decide
  have hhex : Hex.upper [97, 98, 99] = "616263" := by decide
  have hpayload : c.payload Double.plain (.text "abc") = .str "616263" := by
    rw [payload_blob Double.plain (show c.kind = .blob from rfl) (by decide), Value.hexBytes,
      hbytes, hhex]
  have hembedded : c.decodeEmbedded (.str "616263") = .ok (.ofBytes [97, 98, 99]) := by rfl
  refine ⟨by rfl, hplain, hpayload, hembedded, ?_⟩
  rw [hpayload, hembedded, hplain]
  exact nofun

end Column

end Tabula
