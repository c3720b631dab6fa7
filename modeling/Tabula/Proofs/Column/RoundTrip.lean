import Tabula.Column.Codec
import Tabula.Proofs.Calendar.Instant

/-!
# Values stored and read back

Every kind of column has values of its own, and a column gives back what it takes of them. A date
column takes more: any instant that can be read and any 64-bit number of milliseconds. What it then
stores can be read and stored again if its year has four digits, and not otherwise.
-/

namespace Tabula

/-! ## Blobs -/

/-- An integer from 0 to 255. -/
inductive Json.IsByte : Json → Prop
  | number {n range} (hnonneg : 0 ≤ n) (hlt : n < 256) : IsByte (.number (.int n range))

theorem Json.IsByte.exists_ofByte {j : Json} (h : j.IsByte) : ∃ b, .number (.ofByte b) = j := by
  obtain @⟨n, range, hnonneg, hlt⟩ := h
  have hvalue : ((UInt8.ofNat n.toNat).toNat : Int) = n := by
    rw [UInt8.toNat_ofNat']
    omega
  refine ⟨UInt8.ofNat n.toNat, ?_⟩
  simp only [Json.Number.ofByte, hvalue]

theorem Json.exists_ofBytes {items : List Json} (h : ∀ j ∈ items, j.IsByte) :
    ∃ bytes, ofBytes bytes = .arr items := by
  induction items with
  | nil => exact ⟨[], rfl⟩
  | cons j items ih =>
    obtain ⟨hj, hitems⟩ := List.forall_mem_cons.1 h
    obtain ⟨b, rfl⟩ := hj.exists_ofByte
    obtain ⟨bytes, hbytes⟩ := ih hitems
    refine ⟨b :: bytes, ?_⟩
    rw [ofBytes, Json.arr.injEq] at hbytes ⊢
    rw [List.map_cons, hbytes]

namespace ColumnKind

theorem byte_ofByte (b : UInt8) : encodeBlob.byte (.number (.ofByte b)) = .ok b := by
  have hlt := b.toNat_lt
  have hbyte : (Json.Number.ofByte b).byte? = some b := by
    rw [Json.Number.ofByte, Json.Number.byte?, if_pos (by omega), Int.toNat_natCast,
      UInt8.ofNat_toNat]
  rw [encodeBlob.byte, hbyte]

theorem mapM_byte (bytes : List UInt8) :
    (bytes.map fun b => Json.number (.ofByte b)).mapM encodeBlob.byte = .ok bytes := by
  induction bytes with
  | nil => rfl
  | cons b bytes ih =>
    rw [List.map_cons, List.mapM_cons, byte_ofByte, ok_bind, ih, ok_bind, pure_eq_ok]

theorem encodeBlob_ofBytes (bytes : List UInt8) :
    encodeBlob (.ofBytes bytes) = .ok (.blob bytes) :=
  map_eq_ok.2 ⟨bytes, mapM_byte bytes, rfl⟩

end ColumnKind

/-! ## Dates -/

/-- Milliseconds of an instant that is written with a plain year, or null. -/
def Value.IsPlainDate : Value → Prop
  | .null => True
  | .integer n => Instant.HasPlainYear n.toInt
  | .real _ | .text _ | .blob _ => False

theorem Instant.toInt_of_format {m : Int} {s : String} (h : format m = .ok s) :
    (Int64.ofInt m).toInt = m := by
  obtain ⟨-, hlow, hhigh⟩ := format_eq_ok h
  exact Int64.toInt_ofInt_of_le (by omega) (by omega)

namespace ColumnKind

theorem encodeDate_str {s : String} {m : Int} (h : Instant.parse s = .ok m) :
    encodeDate (.str s) = .ok (.integer (Int64.ofInt m)) := by
  rw [encodeDate, h]
  rfl

theorem decodeDate_integer {n : Int64} {s : String} (h : Instant.format n.toInt = .ok s) :
    decodeDate (.integer n) = .ok (.str s) := by
  rw [decodeDate, h]
  rfl

/-- A date column stores null or milliseconds, and those of a text are of an instant that has
one. -/
theorem encodeDate_eq_ok {v : Json} {stored : Value} (h : encodeDate v = .ok stored) :
    v = .null ∧ stored = .null ∨
      ∃ n, stored = .integer n ∧ ∀ s, v = .str s → ∃ t, Instant.format n.toInt = .ok t := by
  cases v with
  | null =>
    cases h
    exact .inl ⟨rfl, rfl⟩
  | str s =>
    obtain ⟨m, hm, rfl⟩ := map_eq_ok.1 h
    have hformat := Instant.format_of_parse hm
    refine .inr ⟨_, rfl, fun _ _ => ⟨Instant.text m, ?_⟩⟩
    rw [Instant.toInt_of_format hformat, hformat]
  | number n =>
    rw [encodeDate] at h
    split at h
    · cases h
      exact .inr ⟨_, rfl, nofun⟩
    · cases h
  | bool b => cases h
  | arr items => cases h
  | obj members => cases h

/-- An instant with a plain year is stored again as it was. -/
theorem encodeDate_text {n : Int64} (h : Instant.HasPlainYear n.toInt) :
    encodeDate (.str (Instant.text n.toInt)) = .ok (.integer n) := by
  rw [encodeDate_str (Instant.parse_text h), Int64.ofInt_toInt]

theorem encodeDate_text_of_signed {n : Int64} (h : ¬Instant.HasPlainYear n.toInt) :
    encodeDate (.str (Instant.text n.toInt)) =
      .error (.invalidDate (Instant.text n.toInt) .invalid) := by
  rw [encodeDate, Instant.parse_text_of_signed h]
  rfl

end ColumnKind

/-! ## What a column takes and gives back -/

/-- The values of a kind: what callers give a column of it. -/
inductive ColumnKind.Takes : ColumnKind → Json → Prop
  | null {kind} : Takes kind .null
  | integer {n range} (hlt : n < 9223372036854775808) : Takes .integer (.number (.int n range))
  | text {s} : Takes .text (.str s)
  | real {x} : Takes .real (.number (.real x))
  | blob {items} (hitems : ∀ j ∈ items, j.IsByte) : Takes .blob (.arr items)
  | boolean {b} : Takes .boolean (.bool b)
  | date {m s} (hyear : Instant.HasPlainYear m) (hformat : Instant.format m = .ok s) :
      Takes .date (.str s)

theorem ColumnKind.decode_encode {kind : ColumnKind} {v : Json} (h : kind.Takes v) :
    ∃ stored, kind.encode v = .ok stored ∧ kind.decode stored = .ok v := by
  cases h with
  | null => exact ⟨.null, by cases kind <;> rfl, by cases kind <;> rfl⟩
  | @integer n range hlt =>
    have hint : (Json.Number.int n range).int64? = some (Int64.ofInt n) := if_pos hlt
    have hvalue : (Int64.ofInt n).toInt = n := Int64.toInt_ofInt_of_le range.1 hlt
    refine ⟨.integer (Int64.ofInt n), ?_, ?_⟩
    · rw [encode, Value.ofJson, Value.ofNumber, hint]
    · simp only [decode, Value.toJson, Json.ofInt64, Json.Number.ofInt64, hvalue]
  | text => exact ⟨_, rfl, rfl⟩
  | real => exact ⟨_, rfl, rfl⟩
  | blob hitems =>
    obtain ⟨bytes, hbytes⟩ := Json.exists_ofBytes hitems
    rw [← hbytes]
    exact ⟨.blob bytes, encodeBlob_ofBytes bytes, rfl⟩
  | @boolean b =>
    cases b
    · exact ⟨_, rfl, rfl⟩
    · exact ⟨_, rfl, rfl⟩
  | date hyear hformat =>
    have hinstant := Instant.toInt_of_format hformat
    refine ⟨_, encodeDate_str (Instant.parse_of_format hyear hformat), decodeDate_integer ?_⟩
    rw [hinstant, hformat]

/-- A column gives back what it takes of its kind, and an instant is read back from its text. -/
theorem Column.roundTrip_of_takes {c : Column} {v : Json} (h : c.kind.Takes v) :
    (∃ stored, c.encode v = .ok stored ∧ c.decode stored = .ok v) ∧
      ∀ m, Instant.HasPlainYear m →
        ∃ s, Instant.format m = .ok s ∧ Instant.parse s = .ok m := by
  obtain ⟨stored, hencode, hdecode⟩ := ColumnKind.decode_encode h
  refine ⟨⟨stored, mapError_eq_ok.2 hencode, mapError_eq_ok.2 hdecode⟩, fun m hyear => ?_⟩
  exact ⟨_, Instant.format_of_plain hyear, Instant.parse_text hyear⟩

/-- The last millisecond of a leap day, long before 1970, and that before 1970. -/
theorem Column.roundTrip_of_takes_leapDay :
    let c : Column := { name := "born", key := "born", kind := .date }
    (∃ stored, c.encode (.str "1600-02-29T23:59:59.999Z") = .ok stored ∧
        c.decode stored = .ok (.str "1600-02-29T23:59:59.999Z")) ∧
      ∃ s, Instant.format (-1) = .ok s ∧ Instant.parse s = .ok (-1) := by
  intro c
  have htakes : c.kind.Takes (.str "1600-02-29T23:59:59.999Z") :=
    .date (m := -11670912000001) (by decide) (by rfl)
  obtain ⟨hcolumn, hinstant⟩ := Column.roundTrip_of_takes htakes
  exact ⟨hcolumn, hinstant (-1) (by decide)⟩

/-! ## What a date column stores -/

/-- What is stored can be read, and what is read can be stored as the same. -/
def Column.Restores (c : Column) (stored : Value) : Prop :=
  ∃ w, c.decode stored = .ok w ∧ c.encode w = .ok stored

namespace Column

section Date

variable {c : Column} {n : Int64}

theorem restores_null (hkind : c.kind = .date) : c.Restores .null := by
  refine ⟨.null, ?_, ?_⟩
  · rw [decode, hkind]
    rfl
  · rw [encode, hkind]
    rfl

theorem decode_integer (hkind : c.kind = .date) {s : String}
    (h : Instant.format n.toInt = .ok s) : c.decode (.integer n) = .ok (.str s) := by
  rw [decode, hkind]
  exact mapError_eq_ok.2 (ColumnKind.decodeDate_integer h)

theorem restores_of_plain (hkind : c.kind = .date) (h : Instant.HasPlainYear n.toInt) :
    c.Restores (.integer n) := by
  refine ⟨.str (Instant.text n.toInt), decode_integer hkind (Instant.format_of_plain h), ?_⟩
  rw [encode, hkind]
  exact mapError_eq_ok.2 (ColumnKind.encodeDate_text h)

/-- Without a plain year the milliseconds have no text, or one that is not taken back. -/
theorem refused_of_signed (hkind : c.kind = .date) (h : ¬Instant.HasPlainYear n.toInt) :
    c.decode (.integer n) = .error (.mapping (.outOfDateRange n.toInt)) ∨
      c.decode (.integer n) = .ok (.str (Instant.text n.toInt)) ∧
        c.encode (.str (Instant.text n.toInt)) =
          .error (.mapping (.invalidDate (Instant.text n.toInt) .invalid)) := by
  cases hformat : Instant.format n.toInt with
  | error fault =>
    obtain rfl := Instant.format_eq_error hformat
    left
    rw [decode, hkind, ColumnKind.decode, ColumnKind.decodeDate, hformat]
    rfl
  | ok s =>
    obtain ⟨rfl, -⟩ := Instant.format_eq_ok hformat
    right
    refine ⟨decode_integer hkind hformat, ?_⟩
    rw [encode, hkind, ColumnKind.encode, ColumnKind.encodeDate_text_of_signed h]
    rfl

theorem not_restores_of_signed (hkind : c.kind = .date) (h : ¬Instant.HasPlainYear n.toInt) :
    ¬c.Restores (.integer n) := by
  rintro ⟨w, hdecode, hencode⟩
  rcases refused_of_signed hkind h with hfail | ⟨htext, hfail⟩
  · rw [hfail] at hdecode
    cases hdecode
  · rw [htext] at hdecode
    cases hdecode
    rw [hfail] at hencode
    cases hencode

theorem restores_integer_iff (hkind : c.kind = .date) :
    c.Restores (.integer n) ↔ (Value.integer n).IsPlainDate :=
  ⟨fun h => by_contra fun hyear => not_restores_of_signed hkind hyear h, restores_of_plain hkind⟩

end Date

/-- What a date column has taken can be read and stored again exactly if it is null or its year is
plain. A text that was taken can be read in any case; what is read of another year begins with a
sign, and the column does not take it. -/
theorem restores_date_iff {c : Column} (hkind : c.kind = .date) {v : Json} {stored : Value}
    (h : c.encode v = .ok stored) :
    (c.Restores stored ↔ stored.IsPlainDate) ∧
      (∀ s, v = .str s → ∃ w, c.decode stored = .ok w) ∧
      ∀ n, stored = .integer n → ¬Instant.HasPlainYear n.toInt →
        c.decode stored = .error (.mapping (.outOfDateRange n.toInt)) ∨
          c.decode stored = .ok (.str (Instant.text n.toInt)) ∧
            c.encode (.str (Instant.text n.toInt)) =
              .error (.mapping (.invalidDate (Instant.text n.toInt) .invalid)) := by
  rw [encode, hkind] at h
  rcases ColumnKind.encodeDate_eq_ok (mapError_eq_ok.1 h) with ⟨rfl, rfl⟩ | ⟨n, rfl, htext⟩
  · refine ⟨iff_of_true (restores_null hkind) trivial, ?_, ?_⟩
    · exact nofun
    · exact nofun
  · refine ⟨restores_integer_iff hkind, ?_, ?_⟩
    · intro s hs
      obtain ⟨t, hformat⟩ := htext s hs
      exact ⟨.str t, decode_integer hkind hformat⟩
    · intro n' hn hyear
      cases hn
      exact refused_of_signed hkind hyear

/-- Local noon of a summer day. -/
theorem restores_date_iff_noon :
    let c : Column := { name := "at", key := "at", kind := .date }
    c.kind = .date ∧ c.encode (.str "2024-05-01T14:00:00+02:00") = .ok (.integer 1714564800000) ∧
      c.Restores (.integer 1714564800000) :=
  have hnoon : Instant.HasPlainYear 1714564800000 := by decide
  ⟨rfl, by rfl,
    (restores_date_iff (v := .str "2024-05-01T14:00:00+02:00") rfl (by rfl)).1.2 hnoon⟩

/-- The offset takes an instant into a year of five digits. -/
theorem refused_of_offset :
    let c : Column := { name := "at", key := "at", kind := .date }
    c.encode (.str "9999-12-31T23:59:59-01:00") = .ok (.integer 253402304399000) ∧
      c.decode (.integer 253402304399000) = .ok (.str "+10000-01-01T00:59:59.000Z") ∧
      c.encode (.str "+10000-01-01T00:59:59.000Z") =
        .error (.mapping (.invalidDate "+10000-01-01T00:59:59.000Z" .invalid)) ∧
      ¬c.Restores (.integer 253402304399000) :=
  ⟨by rfl, by rfl, by rfl, not_restores_of_signed rfl (by decide)⟩

end Column

end Tabula
