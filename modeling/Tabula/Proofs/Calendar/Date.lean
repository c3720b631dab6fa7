import Tabula.Calendar.Date
import Mathlib.Tactic.IntervalCases
import Mathlib.Tactic.ByContra

/-!
# Days and dates

Day numbers and dates stand for each other: the date of a day is one that the calendar has, and its
day number is that day. A year has its days between those of two first Januaries.
-/

namespace Tabula.Date

/-! ## Years from March on -/

/-- The days between 0000-03-01 and the first of March of a year. -/
def daysBefore (year : Int) : Int :=
  365 * year + year / 4 - year / 100 + year / 400

/-- The day is one of the year, both counted from March. -/
structure InYear (year day : Int) : Prop where
  nonneg : 0 ≤ day
  before_next : daysBefore year + day < daysBefore (year + 1)

/-- A day of an era, less the leap days up to it. -/
def withoutLeapDays (day : Int) : Int :=
  day - day / 1460 + day / 36524 - day / 146096

theorem withoutLeapDays_mono {m n : Int} (h : m ≤ n) : withoutLeapDays m ≤ withoutLeapDays n := by
  unfold withoutLeapDays
  omega

/-- Without leap days all years are of 365 days. -/
theorem withoutLeapDays_first {year : Int} (h : 0 ≤ year) (hlt : year < 400) :
    withoutLeapDays (daysBefore year) = 365 * year := by
  unfold withoutLeapDays daysBefore
  have hfour : (365 * year + year / 4 - year / 100 + year / 400) / 1460 = year / 4 := by omega
  have hcentury : (365 * year + year / 4 - year / 100 + year / 400) / 36524 = year / 100 := by omega
  have hera : (365 * year + year / 4 - year / 100 + year / 400) / 146096 = 0 := by omega
  omega

theorem withoutLeapDays_last {year : Int} (h : 0 < year) (hle : year ≤ 400) :
    withoutLeapDays (daysBefore year - 1) < 365 * year := by
  unfold withoutLeapDays daysBefore
  have hfour : (365 * year + year / 4 - year / 100 + year / 400 - 1) / 1460 = year / 4 := by omega
  have hcentury :
      (365 * year + year / 4 - year / 100 + year / 400 - 1) / 36524 ≤ year / 100 := by omega
  omega

/-- The year of an era that a day belongs to. -/
theorem inYear_of_dayOfEra {day : Int} (h : 0 ≤ day) (hlt : day < 146097) :
    0 ≤ withoutLeapDays day / 365 ∧ withoutLeapDays day / 365 < 400 ∧
      InYear (withoutLeapDays day / 365) (day - daysBefore (withoutLeapDays day / 365)) := by
  have hlow : 0 ≤ withoutLeapDays day := withoutLeapDays_mono h
  have hhigh : withoutLeapDays day ≤ 145999 := withoutLeapDays_mono (n := 146096) (by omega)
  generalize hyear : withoutLeapDays day / 365 = year
  have hnonneg : 0 ≤ year := by omega
  have hera : year < 400 := by omega
  refine ⟨hnonneg, hera, ?_, ?_⟩
  · -- a day before the year would have fewer days without leap days
    by_contra hday
    rcases hnonneg.eq_or_lt with rfl | hpos
    · have hfirst : daysBefore 0 = 0 := rfl
      omega
    · have hle := withoutLeapDays_mono (m := day) (n := daysBefore year - 1) (by omega)
      have hlast := withoutLeapDays_last hpos (by omega)
      omega
  · by_contra hday
    rcases (show year + 1 ≤ 400 by omega).eq_or_lt with hend | hnext
    · rw [hend] at hday
      have hfirst : daysBefore 400 = 146097 := rfl
      omega
    · have hle := withoutLeapDays_mono (m := daysBefore (year + 1)) (n := day) (by omega)
      have hfirst : withoutLeapDays (daysBefore (year + 1)) = 365 * (year + 1) :=
        withoutLeapDays_first (by omega) hnext
      omega

/-! ## Days as dates -/

/-- The date of a day of a year, both counted from March. -/
def ofMarch (year day : Int) : Date :=
  let month := (5 * day + 2) / 153
  let dayOfMonth := day - (153 * month + 2) / 5 + 1
  if month < 10 then ⟨year, (month + 3).toNat, dayOfMonth.toNat⟩
  else ⟨year + 1, (month - 9).toNat, dayOfMonth.toNat⟩

theorem InYear.month {year day : Int} (h : InYear year day) :
    0 ≤ (5 * day + 2) / 153 ∧ (5 * day + 2) / 153 ≤ 11 := by
  obtain ⟨hnonneg, hnext⟩ := h
  unfold daysBefore at hnext
  omega

theorem ofDays_eq {n year day : Int}
    (hyear : withoutLeapDays ((n + epoch).fmod 146097) / 365 = year)
    (hday : (n + epoch).fmod 146097 - (365 * year + year / 4 - year / 100) = day)
    (h : InYear year day) : ofDays n = ofMarch (year + (n + epoch).fdiv 146097 * 400) day := by
  obtain ⟨hfirst, hlast⟩ := h.month
  dsimp only [ofDays, ofMarch]
  rw [← withoutLeapDays, hyear, hday]
  by_cases hmonth : (5 * day + 2) / 153 < 10
  · rw [if_pos hmonth, if_pos hmonth, if_neg (by omega), Int.add_zero]
  · rw [if_neg hmonth, if_neg hmonth, if_pos (by omega)]

theorem exists_ofMarch (n : Int) :
    ∃ year day, InYear year day ∧ n + epoch = daysBefore year + day ∧
      ofDays n = ofMarch year day := by
  have hsplit := Int.fmod_add_mul_fdiv (n + epoch) 146097
  obtain ⟨hnonneg, hera, hday⟩ := inYear_of_dayOfEra
    (Int.fmod_nonneg_of_pos (n + epoch) (b := 146097) (by omega)) (Int.fmod_lt_of_pos _ (by omega))
  generalize hyear : withoutLeapDays ((n + epoch).fmod 146097) / 365 = year at *
  have hleap : 365 * year + year / 4 - year / 100 = daysBefore year := by
    unfold daysBefore
    omega
  have hshift : ∀ y, daysBefore (y + (n + epoch).fdiv 146097 * 400) =
      daysBefore y + (n + epoch).fdiv 146097 * 146097 := by
    intro y
    unfold daysBefore
    omega
  obtain ⟨hfirst, hnext⟩ := hday
  refine ⟨_, _, ⟨hfirst, ?_⟩, ?_, ofDays_eq hyear (by rw [hleap]) ⟨hfirst, hnext⟩⟩
  · rw [Int.add_right_comm, hshift, hshift]
    omega
  · rw [hshift]
    omega

/-! ## Dates as days -/

theorem toDays_eq (d : Date) :
    d.toDays = daysBefore (if d.month ≤ 2 then d.year - 1 else d.year) +
      ((153 * (if d.month ≤ 2 then (d.month : Int) + 9 else d.month - 3) + 2) / 5 + d.day - 1) -
      epoch := by
  dsimp only [toDays, daysBefore]
  rw [Int.fdiv_eq_ediv_of_nonneg _ (by omega), Int.fmod_eq_emod_of_nonneg _ (by omega)]
  omega

theorem toDays_ofMarch {year day : Int} (h : InYear year day) :
    (ofMarch year day).toDays = daysBefore year + day - epoch := by
  obtain ⟨hfirst, hlast⟩ := h.month
  have hnonneg := h.nonneg
  dsimp only [ofMarch]
  split
  · rw [toDays_eq, if_neg (by dsimp only; omega), if_neg (by dsimp only; omega)]
    dsimp only
    omega
  · rw [toDays_eq, if_pos (by dsimp only; omega), if_pos (by dsimp only; omega)]
    dsimp only
    rw [Int.add_sub_cancel]
    omega

theorem exists_of_inYear {year day : Int} (h : InYear year day) : (ofMarch year day).Exists := by
  obtain ⟨hfirst, hlast⟩ := h.month
  obtain ⟨hnonneg, hnext⟩ := h
  unfold daysBefore at hnext
  dsimp only [ofMarch, Exists]
  generalize hmonth : (5 * day + 2) / 153 = month at *
  interval_cases month
  all_goals simp only [daysInMonth, isLeapYear]
  all_goals simp
  all_goals omega

/-- Every day has a date. -/
theorem exists_ofDays (n : Int) : (ofDays n).Exists := by
  obtain ⟨year, day, hday, -, hdate⟩ := exists_ofMarch n
  rw [hdate]
  exact exists_of_inYear hday

/-- The day number of the date of a day is the day. -/
theorem toDays_ofDays (n : Int) : (ofDays n).toDays = n := by
  obtain ⟨year, day, hday, hn, hdate⟩ := exists_ofMarch n
  rw [hdate, toDays_ofMarch hday]
  omega

/-! ## Bounds -/

theorem bounds_of_exists {d : Date} (h : d.Exists) :
    1 ≤ d.month ∧ d.month ≤ 12 ∧ 1 ≤ d.day ∧ d.day ≤ 31 := by
  obtain ⟨hfirst, hlast⟩ := h
  unfold daysInMonth at hlast
  repeat' split at hlast
  all_goals omega

theorem toDays_first (year : Int) :
    (Date.mk year 1 1).toDays = daysBefore (year - 1) + 306 - epoch := by
  rw [toDays_eq]
  dsimp only
  rw [if_pos (by omega), if_pos (by omega)]
  omega

/-- A date lies between the first days of its year and of the next. -/
theorem toDays_in_year {d : Date} (h : d.Exists) :
    (Date.mk d.year 1 1).toDays ≤ d.toDays ∧ d.toDays < (Date.mk (d.year + 1) 1 1).toDays := by
  obtain ⟨hmonth, hmonth', hday, hday'⟩ := bounds_of_exists h
  rw [toDays_first, toDays_first, toDays_eq]
  unfold daysBefore
  omega

theorem toDays_first_mono {m n : Int} (h : m ≤ n) :
    (Date.mk m 1 1).toDays ≤ (Date.mk n 1 1).toDays := by
  rw [toDays_first, toDays_first]
  unfold daysBefore
  omega

end Tabula.Date
