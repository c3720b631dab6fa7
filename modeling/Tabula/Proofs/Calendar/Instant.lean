import Tabula.Proofs.Calendar.Date
import Tabula.Proofs.Calendar.Digits

/-!
# Instants written and read

An instant is read back from its text if its year has four digits. The text of any other year begins
with a sign, which no reader of instants takes. Reading never goes beyond the instants that have a
text: a date has a year of four digits, and an offset is shorter than a day.
-/

namespace Tabula.Instant

/-! ## Dates and times of day -/

theorem oneOf_cons {allowed : List UInt8} {b : UInt8} (h : b ∈ allowed) (rest : List UInt8) :
    oneOf allowed (b :: rest) = .ok rest :=
  if_pos h

theorem date_padded {d : Date} (h : d.Exists) (hnonneg : 0 ≤ d.year) (hle : d.year ≤ 9999)
    (rest : List UInt8) :
    date (bytes (padded 4 d.year.toNat) ++ 45 :: (bytes (padded 2 d.month) ++ 45 ::
      (bytes (padded 2 d.day) ++ rest))) = .ok (d, rest) := by
  obtain ⟨-, hmonth, -, hday⟩ := Date.bounds_of_exists h
  have hdate : (⟨(d.year.toNat : Int), d.month, d.day⟩ : Date) = d := by
    rw [Int.toNat_of_nonneg hnonneg]
  rw [date, digits_padded (by omega) (by omega), ok_bind]
  dsimp only
  rw [oneOf_cons (by decide), ok_bind, digits_padded (by omega) (by omega), ok_bind]
  dsimp only
  rw [oneOf_cons (by decide), ok_bind, digits_padded (by omega) (by omega), ok_bind]
  dsimp only
  rw [hdate, if_pos h, pure_eq_ok]

theorem time_padded {t : Nat} (h : t < 86400000) (rest : List UInt8) :
    time (bytes (padded 2 (t / 3600000)) ++ 58 :: (bytes (padded 2 (t / 60000 % 60)) ++ 58 ::
      (bytes (padded 2 (t / 1000 % 60)) ++ 46 :: (bytes (padded 3 (t % 1000)) ++ 90 :: rest)))) =
      .ok (t, 90 :: rest) := by
  have hsum : ((t / 3600000 * 60 + t / 60000 % 60) * 60 + t / 1000 % 60) * 1000 + t % 1000 = t := by
    omega
  rw [time, digits_padded (by omega) (by omega), ok_bind]
  dsimp only
  rw [oneOf_cons (by decide), ok_bind, digits_padded (by omega) (by omega), ok_bind]
  dsimp only
  rw [oneOf_cons (by decide), ok_bind, digits_padded (by omega) (by omega), ok_bind]
  dsimp only
  rw [fraction_padded (by omega), ok_bind]
  dsimp only
  rw [if_neg (by omega), pure_eq_ok, hsum]

theorem of_date {bs rest : List UInt8} {d : Date} (h : date bs = .ok (d, rest)) :
    d.Exists ∧ 0 ≤ d.year ∧ d.year ≤ 9999 := by
  unfold date at h
  obtain ⟨⟨year, bs₁⟩, hyear, h⟩ := bind_eq_ok.1 h
  obtain ⟨bs₂, -, h⟩ := bind_eq_ok.1 h
  obtain ⟨⟨month, bs₃⟩, -, h⟩ := bind_eq_ok.1 h
  obtain ⟨bs₄, -, h⟩ := bind_eq_ok.1 h
  obtain ⟨⟨day, bs₅⟩, -, h⟩ := bind_eq_ok.1 h
  have hlt := lt_of_digits hyear
  dsimp only at h
  split at h
  · rename_i hexists
    cases h
    exact ⟨hexists, by dsimp only; omega, by dsimp only; omega⟩
  · cases h

/-- A leap second makes a day longer by one. -/
theorem lt_of_time {bs rest : List UInt8} {t : Nat} (h : time bs = .ok (t, rest)) :
    t < 86401000 := by
  unfold time at h
  obtain ⟨⟨hour, bs₁⟩, -, h⟩ := bind_eq_ok.1 h
  obtain ⟨bs₂, -, h⟩ := bind_eq_ok.1 h
  obtain ⟨⟨minute, bs₃⟩, -, h⟩ := bind_eq_ok.1 h
  obtain ⟨bs₄, -, h⟩ := bind_eq_ok.1 h
  obtain ⟨⟨second, bs₅⟩, -, h⟩ := bind_eq_ok.1 h
  obtain ⟨⟨millis, bs₆⟩, hmillis, h⟩ := bind_eq_ok.1 h
  have hlt := lt_of_fraction hmillis
  dsimp only at h
  split at h
  · cases h
  · cases h
    omega

/-! ## Texts -/

theorem ofBytes_of_length {bs : List UInt8} (h : 19 ≤ bs.length) : ofBytes bs = (do
    let (date, bs) ← date bs
    let bs ← oneOf [84, 116, 32] bs
    let (time, bs) ← time bs
    let (offset, bs) ← offset bs
    unless bs.isEmpty do throw .tooLong
    unless offset.natAbs < 24 * 60 do throw .outOfRange
    return date.toDays * millisPerDay + time - offset * 60000) := by
  rw [ofBytes, if_neg (by omega)]

/-- The bytes of the text of a date and a time of day, given those of the year. -/
def layout (year : List UInt8) (month day hour minute second millis : Nat) : List UInt8 :=
  year ++ 45 :: (bytes (padded 2 month) ++ 45 :: (bytes (padded 2 day) ++ 84 ::
    (bytes (padded 2 hour) ++ 58 :: (bytes (padded 2 minute) ++ 58 ::
      (bytes (padded 2 second) ++ 46 :: (bytes (padded 3 millis) ++ [90]))))))

theorem length_layout {year : List UInt8} (h : 4 ≤ year.length)
    (month day hour minute second millis : Nat) :
    19 ≤ (layout year month day hour minute second millis).length := by
  have hmonth := le_length_padded 2 month
  have hday := le_length_padded 2 day
  have hhour := le_length_padded 2 hour
  have hminute := le_length_padded 2 minute
  have hmillis := le_length_padded 3 millis
  simp only [layout, List.length_append, List.length_cons]
  omega

theorem parse_text_eq (m : Int) :
    let d := Date.ofDays (m.fdiv millisPerDay)
    let t := (m.fmod millisPerDay).toNat
    parse (text m) = (ofBytes (layout (bytes (yearText d.year)) d.month d.day (t / 3600000)
      (t / 60000 % 60) (t / 1000 % 60) (t % 1000))).mapError (.invalidDate (text m)) := by
  dsimp only [parse, text]
  rw [String.toList_ofList, ← bytes]
  simp only [bytes_append, bytes_cons, List.append_assoc]
  rfl

/-- An instant is a day and a time of it. -/
theorem day_add_time (m : Int) :
    m.fdiv millisPerDay * 86400000 + m.fmod millisPerDay = m ∧
      0 ≤ m.fmod millisPerDay ∧ m.fmod millisPerDay < 86400000 :=
  ⟨Int.fdiv_mul_add_fmod m millisPerDay, Int.fmod_nonneg_of_pos m (by decide),
    Int.fmod_lt_of_pos m (by decide)⟩

theorem format_eq (m : Int) :
    format m = if -8334601228800000 ≤ m ∧ m ≤ 8210266876799999 then .ok (text m)
      else .error (.outOfDateRange m) :=
  rfl

theorem format_eq_ok {m : Int} {s : String} (h : format m = .ok s) :
    s = text m ∧ -8334601228800000 ≤ m ∧ m ≤ 8210266876799999 := by
  rw [format_eq] at h
  split at h
  · rename_i hrange
    cases h
    exact ⟨rfl, hrange⟩
  · cases h

theorem format_eq_error {m : Int} {fault : MappingFault} (h : format m = .error fault) :
    fault = .outOfDateRange m := by
  rw [format_eq] at h
  split at h
  · cases h
  · cases h
    rfl

/-! ## Years of four digits -/

/-- The year of an instant in UTC. -/
def year (m : Int) : Int :=
  (Date.ofDays (m.fdiv millisPerDay)).year

/-- The year of the instant is written with four digits and no sign. -/
def HasPlainYear (m : Int) : Prop :=
  0 ≤ year m ∧ year m ≤ 9999

theorem hasPlainYear_iff {m : Int} :
    HasPlainYear m ↔ -62167219200000 ≤ m ∧ m ≤ 253402300799999 := by
  obtain ⟨hsplit, htime, htime'⟩ := day_add_time m
  obtain ⟨hfirst, hnext⟩ := Date.toDays_in_year (Date.exists_ofDays (m.fdiv millisPerDay))
  rw [Date.toDays_ofDays, ← year] at hfirst hnext
  have hzero : (Date.mk 0 1 1).toDays = -719528 := rfl
  have hlast : (Date.mk 10000 1 1).toDays = 2932897 := rfl
  unfold HasPlainYear
  generalize year m = y at *
  constructor
  · rintro ⟨hnonneg, hle⟩
    have hlow := Date.toDays_first_mono hnonneg
    have hhigh := Date.toDays_first_mono (show y + 1 ≤ 10000 by omega)
    omega
  · rintro ⟨hlow, hhigh⟩
    constructor
    · by_contra hneg
      have hle := Date.toDays_first_mono (show y + 1 ≤ 0 by omega)
      omega
    · by_contra hgt
      have hle := Date.toDays_first_mono (show 10000 ≤ y by omega)
      omega

instance (m : Int) : Decidable (HasPlainYear m) :=
  decidable_of_iff _ hasPlainYear_iff.symm

theorem format_of_plain {m : Int} (h : HasPlainYear m) : format m = .ok (text m) := by
  have hbounds := hasPlainYear_iff.1 h
  rw [format_eq, if_pos (by omega)]

/-- An instant with a year of four digits is read back from its text. -/
theorem parse_text {m : Int} (h : HasPlainYear m) : parse (text m) = .ok m := by
  obtain ⟨hsplit, htime, htime'⟩ := day_add_time m
  have hexists := Date.exists_ofDays (m.fdiv millisPerDay)
  have hdays := Date.toDays_ofDays (m.fdiv millisPerDay)
  rw [parse_text_eq]
  unfold HasPlainYear year at h
  generalize Date.ofDays (m.fdiv millisPerDay) = d at *
  generalize m.fmod millisPerDay = t at *
  have hutc : offset [90] = .ok (0, []) := rfl
  have hsum : d.toDays * 86400000 + (t.toNat : Int) - 0 * 60000 = m := by
    rw [hdays, Int.toNat_of_nonneg htime, Int.zero_mul, Int.sub_zero, hsplit]
  rw [yearText, if_pos h, ofBytes_of_length (length_layout (le_length_padded 4 _) ..), layout,
    date_padded hexists h.1 h.2, ok_bind]
  dsimp only
  rw [oneOf_cons (by decide), ok_bind, time_padded (by omega), ok_bind]
  dsimp only
  rw [hutc, ok_bind]
  exact congrArg Except.ok hsum

theorem bytes_yearText_of_signed {y : Int} (h : ¬(0 ≤ y ∧ y ≤ 9999)) :
    ∃ sign rest, isDigit sign = false ∧ 4 ≤ rest.length ∧ bytes (yearText y) = sign :: rest := by
  rw [yearText, if_neg h]
  split
  · exact ⟨45, _, rfl, le_length_padded 4 _, rfl⟩
  · exact ⟨43, _, rfl, le_length_padded 4 _, rfl⟩

theorem parse_of_format {m : Int} {s : String} (h : HasPlainYear m) (hformat : format m = .ok s) :
    parse s = .ok m := by
  obtain ⟨rfl, -⟩ := format_eq_ok hformat
  exact parse_text h

/-- Any other instant has a text that cannot be read. -/
theorem parse_text_of_signed {m : Int} (h : ¬HasPlainYear m) :
    parse (text m) = .error (.invalidDate (text m) .invalid) := by
  obtain ⟨sign, rest, hsign, hlength, hyear⟩ := bytes_yearText_of_signed h
  have hwidth : 4 ≤ (sign :: rest).length := Nat.le_succ_of_le hlength
  unfold year at hyear
  rw [parse_text_eq]
  rw [hyear, ofBytes_of_length (length_layout hwidth ..), layout, List.cons_append, date,
    digits_of_not_isDigit (by omega) hsign]
  rfl

/-! ## What can be read -/

/-- What is read is a date, a time of day and an offset of less than a day. -/
theorem exists_of_ofBytes {bs : List UInt8} {m : Int} (h : ofBytes bs = .ok m) :
    ∃ (d : Date) (t : Nat) (o : Int), d.Exists ∧ 0 ≤ d.year ∧ d.year ≤ 9999 ∧ t < 86401000 ∧
      o.natAbs < 24 * 60 ∧ m = d.toDays * 86400000 + t - o * 60000 := by
  have hlength : 19 ≤ bs.length := by
    by_contra hlt
    rw [ofBytes, if_pos (by omega)] at h
    cases h
  rw [ofBytes_of_length hlength] at h
  obtain ⟨⟨d, bs₁⟩, hdate, h⟩ := bind_eq_ok.1 h
  obtain ⟨bs₂, -, h⟩ := bind_eq_ok.1 h
  obtain ⟨⟨t, bs₃⟩, htime, h⟩ := bind_eq_ok.1 h
  obtain ⟨⟨o, bs₄⟩, -, h⟩ := bind_eq_ok.1 h
  obtain ⟨hexists, hnonneg, hle⟩ := of_date hdate
  dsimp only at h
  split at h
  · split at h
    · rename_i hoffset
      cases h
      exact ⟨d, t, o, hexists, hnonneg, hle, lt_of_time htime, hoffset, rfl⟩
    · cases h
  · cases h

/-- Every instant that can be read has a text. -/
theorem format_of_parse {s : String} {m : Int} (h : parse s = .ok m) : format m = .ok (text m) := by
  obtain ⟨d, t, o, hexists, hnonneg, hle, htime, hoffset, rfl⟩ :=
    exists_of_ofBytes (mapError_eq_ok.1 h)
  obtain ⟨hfirst, hnext⟩ := Date.toDays_in_year hexists
  have hzero : (Date.mk 0 1 1).toDays = -719528 := rfl
  have hlast : (Date.mk 10000 1 1).toDays = 2932897 := rfl
  have hlow := Date.toDays_first_mono hnonneg
  have hhigh := Date.toDays_first_mono (show d.year + 1 ≤ 10000 by omega)
  rw [format_eq, if_pos (by omega)]

end Tabula.Instant
