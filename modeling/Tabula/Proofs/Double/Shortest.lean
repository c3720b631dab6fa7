import Tabula.Proofs.Double.Rounded
import Tabula.Double.Layout

/-!
# Shortest decimals read back

The shortest decimal of a double lies in the interval of the numbers that round to it, so reading it
gives the double again.
-/

namespace Tabula.Double

/-! ## Decimals -/

/-- A power of a number that is kept as a numerator and a denominator. -/
theorem pow_div_pow {b : ℚ} (hb : b ≠ 0) (n : Int) : b ^ n.toNat / b ^ (-n).toNat = b ^ n := by
  rw [← zpow_natCast, ← zpow_natCast, ← zpow_sub₀ hb]
  congr 1
  omega

namespace Decimal

/-- The number that a decimal stands for. -/
def value (d : Decimal) : ℚ :=
  d.digits * 10 ^ d.exponent

theorem value_strip (fuel : Nat) (d : Decimal) : (strip fuel d).value = d.value := by
  induction fuel generalizing d with
  | zero => rfl
  | succ fuel ih =>
    rw [strip]
    split_ifs with h
    · have hsplit : d.digits = 10 * (d.digits / 10) := by omega
      have hdigits : (d.digits : ℚ) = 10 * (d.digits / 10 : Nat) := by exact_mod_cast hsplit
      rw [ih, value, value, hdigits, zpow_add₀ (by norm_num), zpow_one]
      ring
    · rfl

theorem exponent_le_strip (fuel : Nat) (d : Decimal) : d.exponent ≤ (strip fuel d).exponent := by
  induction fuel generalizing d with
  | zero => exact le_rfl
  | succ fuel ih =>
    rw [strip]
    split_ifs
    · exact (Int.le_add_one le_rfl).trans (ih ⟨d.digits / 10, d.exponent + 1⟩)
    · exact le_rfl

/-- The number has as many digits before its point as the exponent and the digits say. -/
theorem value_lt (d : Decimal) : d.value < 10 ^ (d.exponent + decimalLength d.digits) := by
  have hdigits : d.digits < 10 ^ decimalLength d.digits :=
    (Nat.length_toDigits_le_iff (by decide) Nat.length_toDigits_pos).1 le_rfl
  have hdigits : (d.digits : ℚ) < 10 ^ decimalLength d.digits := by exact_mod_cast hdigits
  rw [value, zpow_add₀ (by norm_num), zpow_natCast, mul_comm]
  exact mul_lt_mul_of_pos_left hdigits (by positivity)

theorem pow_le_value {d : Decimal} (h : d.digits ≠ 0) :
    10 ^ (d.exponent + decimalLength d.digits - 1) ≤ d.value := by
  have hlength : 0 < decimalLength d.digits := Nat.length_toDigits_pos
  have hdigits : 10 ^ (decimalLength d.digits - 1) ≤ d.digits := by
    rcases Nat.eq_zero_or_pos (decimalLength d.digits - 1) with hone | hmore
    · rw [hone]
      exact Nat.pos_of_ne_zero h
    · by_contra hlt
      have hle := (Nat.length_toDigits_le_iff (by decide) hmore).2 (not_le.1 hlt)
      change decimalLength d.digits ≤ _ at hle
      omega
  have hdigits : (10 : ℚ) ^ (decimalLength d.digits - 1) ≤ d.digits := by exact_mod_cast hdigits
  have hsplit : d.exponent + decimalLength d.digits - 1 =
      (decimalLength d.digits - 1 : Nat) + d.exponent := by omega
  rw [value, hsplit, zpow_add₀ (by norm_num), zpow_natCast]
  exact mul_le_mul_of_nonneg_right hdigits (by positivity)

theorem digits_ne_zero {d : Decimal} (h : 0 < d.value) : d.digits ≠ 0 := by
  intro hdigits
  rw [value, hdigits, Nat.cast_zero, zero_mul] at h
  exact h.false

/-- The number as a whole one. -/
def whole (d : Decimal) : Nat :=
  d.digits * 10 ^ d.exponent.toNat

theorem cast_whole {d : Decimal} (h : 0 ≤ d.exponent) : (d.whole : ℚ) = d.value := by
  rw [whole, value, Nat.cast_mul, Nat.cast_pow, ← zpow_natCast, Int.toNat_of_nonneg h]
  rfl

end Decimal

namespace Finite

variable {x : Finite} {tie : Tie} {e e₀ : Int} {k fuel : Nat}

/-! ## Multiples in the interval -/

/-- A quarter of the step in units of `10 ^ e` is a quotient of these two. -/
def quarterNum (x : Finite) (e : Int) : Nat :=
  Nat.pow 2 (x.exponent - 2).toNat * Nat.pow 10 (-e).toNat

def quarterDen (x : Finite) (e : Int) : Nat :=
  Nat.pow 2 (-(x.exponent - 2)).toNat * Nat.pow 10 e.toNat

theorem quarterDen_pos (x : Finite) (e : Int) : 0 < x.quarterDen e :=
  Nat.mul_pos (Nat.two_pow_pos _) (Nat.pow_pos (by decide))

theorem quarterNum_pos (x : Finite) (e : Int) : 0 < x.quarterNum e :=
  Nat.mul_pos (Nat.two_pow_pos _) (Nat.pow_pos (by decide))

theorem quarter_eq (x : Finite) (e : Int) :
    (x.quarterNum e : ℚ) * (10 ^ e / x.quarterDen e) = x.step / 4 := by
  have htwo := pow_div_pow (two_ne_zero (α := ℚ)) (x.exponent - 2)
  have hten := pow_div_pow (b := (10 : ℚ)) (by norm_num) (-e)
  rw [neg_neg, zpow_neg] at hten
  have hquotient : (x.quarterNum e : ℚ) / x.quarterDen e =
      2 ^ (x.exponent - 2) * (10 ^ e)⁻¹ := by
    rw [← htwo, ← hten, quarterNum, quarterDen]
    push_cast [Nat.pow_eq]
    rw [div_mul_div_comm]
  have hpower : (10 : ℚ) ^ e ≠ 0 := by positivity
  rw [mul_div_left_comm, hquotient, mul_comm, mul_assoc, inv_mul_cancel₀ hpower, mul_one,
    zpow_sub₀ two_ne_zero, step]
  norm_num

/-- The magnitude in units of `10 ^ e / quarterDen e`. -/
theorem magnitude_eq (x : Finite) (e : Int) :
    ((4 * x.significand * x.quarterNum e : Nat) : ℚ) * (10 ^ e / x.quarterDen e) =
      x.magnitude := by
  rw [Nat.cast_mul, mul_assoc, quarter_eq, magnitude]
  push_cast
  ring

/-- How often the unit fits into the double, and what is left of it. -/
def multiplesBelow (x : Finite) (e : Int) : Nat :=
  4 * x.significand * x.quarterNum e / x.quarterDen e

def restBelow (x : Finite) (e : Int) : Nat :=
  4 * x.significand * x.quarterNum e % x.quarterDen e

/-- Whether a distance is covered by a gap, both counted in the same unit. -/
def Inside (x : Finite) (distance gap : Nat) : Prop :=
  if x.significand % 2 = 0 then distance ≤ gap else distance < gap

instance (x : Finite) (distance gap : Nat) : Decidable (x.Inside distance gap) :=
  inferInstanceAs
    (Decidable (if x.significand % 2 = 0 then distance ≤ gap else distance < gap))

/-- The multiple below the double lies in the interval. -/
def Low (x : Finite) (e : Int) : Prop :=
  x.multiplesBelow e ≠ 0 ∧ x.Inside (x.restBelow e) (x.quarterBelow * x.quarterNum e)

/-- The multiple above the double lies in the interval. -/
def High (x : Finite) (e : Int) : Prop :=
  x.Inside (x.quarterDen e - x.restBelow e) (2 * x.quarterNum e)

instance (x : Finite) (e : Int) : Decidable (x.Low e) :=
  inferInstanceAs (Decidable (_ ∧ _))

instance (x : Finite) (e : Int) : Decidable (x.High e) :=
  inferInstanceAs (Decidable (x.Inside _ _))

theorem multiple?_eq (tie : Tie) (x : Finite) (e : Int) : x.multiple? tie e =
    if x.Low e ∧ x.High e then
      if 2 * x.restBelow e < x.quarterDen e then some (x.multiplesBelow e)
      else if x.quarterDen e < 2 * x.restBelow e then some (x.multiplesBelow e + 1)
      else match tie with
        | .up => some (x.multiplesBelow e + 1)
        | .even =>
          some (if x.multiplesBelow e % 2 = 0 then x.multiplesBelow e else x.multiplesBelow e + 1)
    else if x.Low e then some (x.multiplesBelow e)
    else if x.High e then some (x.multiplesBelow e + 1)
    else none :=
  rfl

/-- A multiple is one of the two next to the double, and near enough to it. -/
theorem multiple?_eq_some (h : x.multiple? tie e = some k) :
    k = x.multiplesBelow e ∧ x.Low e ∨ k = x.multiplesBelow e + 1 ∧ x.High e := by
  rw [multiple?_eq] at h
  by_cases hlow : x.Low e
  · by_cases hhigh : x.High e
    · have hnext : k = x.multiplesBelow e ∨ k = x.multiplesBelow e + 1 := by
        rw [if_pos ⟨hlow, hhigh⟩] at h
        cases tie <;> split_ifs at h <;> cases h <;> simp
      exact hnext.imp (⟨·, hlow⟩) (⟨·, hhigh⟩)
    · rw [if_neg fun hboth => hhigh hboth.2, if_pos hlow] at h
      cases h
      exact .inl ⟨rfl, hlow⟩
  · rw [if_neg fun hboth => hlow hboth.1, if_neg hlow] at h
    split_ifs at h with hhigh
    cases h
    exact .inr ⟨rfl, hhigh⟩

theorem exists_multiple? (hlow : x.Low e) : ∃ k, x.multiple? tie e = some k := by
  rw [multiple?_eq, if_pos hlow]
  cases tie <;> split_ifs <;> exact ⟨_, rfl⟩

theorem Inside.reaches {distance gap : Nat} {unit : ℚ} (hunit : 0 < unit)
    (h : x.Inside distance gap) : x.Reaches (distance * unit) (gap * unit) := by
  unfold Inside at h
  unfold Reaches
  split_ifs at h ⊢
  · exact mul_le_mul_of_nonneg_right (by exact_mod_cast h) hunit.le
  · exact mul_lt_mul_of_pos_right (by exact_mod_cast h) hunit

theorem Reaches.of_nonpos {distance gap : ℚ} (hdistance : distance ≤ 0) (hgap : 0 < gap) :
    x.Reaches distance gap := by
  unfold Reaches
  split_ifs
  · exact hdistance.trans hgap.le
  · exact hdistance.trans_lt hgap

theorem quarterBelow_pos (x : Finite) : 0 < x.quarterBelow := by
  unfold quarterBelow
  split_ifs <;> decide

/-- What is found lies in the interval. -/
theorem takes_of_multiple? (h : x.multiple? tie e = some k) : x.Takes (k * 10 ^ e) := by
  have hden : (0 : ℚ) < x.quarterDen e := by exact_mod_cast x.quarterDen_pos e
  have hpower : (0 : ℚ) < 10 ^ e := by positivity
  have hunit : (0 : ℚ) < 10 ^ e / x.quarterDen e := by positivity
  have hstep := x.step_pos
  have hquarter := x.quarter_eq e
  have hscaled := x.magnitude_eq e
  have hsplit : x.quarterDen e * x.multiplesBelow e + x.restBelow e =
      4 * x.significand * x.quarterNum e := Nat.div_add_mod _ _
  have hwhole : (x.quarterDen e : ℚ) * (10 ^ e / x.quarterDen e) = 10 ^ e :=
    mul_div_cancel₀ _ hden.ne'
  have hmagnitude : x.magnitude = x.multiplesBelow e * 10 ^ e +
      x.restBelow e * (10 ^ e / x.quarterDen e) := by
    rw [← hscaled, ← hsplit]
    push_cast
    rw [add_mul, mul_right_comm, hwhole, mul_comm ((10 : ℚ) ^ e)]
  rcases multiple?_eq_some h with ⟨rfl, hnonzero, hlow⟩ | ⟨rfl, hhigh⟩
  · have hpositive : (0 : ℚ) < x.multiplesBelow e := by
      exact_mod_cast Nat.pos_of_ne_zero hnonzero
    have hbelow := hlow.reaches hunit
    rw [Nat.cast_mul, mul_assoc, hquarter] at hbelow
    have hdistance : x.magnitude - x.multiplesBelow e * 10 ^ e =
        x.restBelow e * (10 ^ e / x.quarterDen e) := by
      rw [hmagnitude, add_sub_cancel_left]
    refine ⟨mul_pos hpositive hpower, by rwa [hdistance], .of_nonpos ?_ (by positivity)⟩
    have hrest : (0 : ℚ) ≤ x.restBelow e * (10 ^ e / x.quarterDen e) := by positivity
    linarith
  · have hrest : x.restBelow e ≤ x.quarterDen e := (Nat.mod_lt _ (x.quarterDen_pos e)).le
    have habove := Inside.reaches hunit hhigh
    rw [Nat.cast_mul, mul_assoc, hquarter] at habove
    have hdistance : ((x.multiplesBelow e + 1 : Nat) : ℚ) * 10 ^ e - x.magnitude =
        ((x.quarterDen e - x.restBelow e : Nat) : ℚ) * (10 ^ e / x.quarterDen e) := by
      rw [Nat.cast_sub hrest, sub_mul, hwhole, hmagnitude]
      push_cast
      ring
    have hgap : ((2 : Nat) : ℚ) * (x.step / 4) = x.step / 2 := by
      push_cast
      ring
    have hquarterBelow : (0 : ℚ) < x.quarterBelow := by exact_mod_cast x.quarterBelow_pos
    refine ⟨by positivity, .of_nonpos ?_ (by positivity), by rwa [hdistance, ← hgap]⟩
    have hnonneg : (0 : ℚ) ≤
        ((x.quarterDen e - x.restBelow e : Nat) : ℚ) * (10 ^ e / x.quarterDen e) := by positivity
    linarith

/-- A unit that divides the double is a multiple of itself in the interval. -/
theorem exists_multiple?_of_eq (hx : x.significand ≠ 0) {n : Nat}
    (h : x.magnitude = n * 10 ^ e) : ∃ k, x.multiple? tie e = some k := by
  have hden : (0 : ℚ) < x.quarterDen e := by exact_mod_cast x.quarterDen_pos e
  have hpower : (10 : ℚ) ^ e ≠ 0 := by positivity
  have hscaled : 4 * x.significand * x.quarterNum e = x.quarterDen e * n := by
    have heq := x.magnitude_eq e
    rw [h, mul_div_assoc', mul_comm _ ((10 : ℚ) ^ e), mul_comm (n : ℚ), mul_div_assoc] at heq
    have heq := mul_left_cancel₀ hpower heq
    rw [div_eq_iff hden.ne', mul_comm (n : ℚ)] at heq
    exact_mod_cast heq
  have hnum := x.quarterNum_pos e
  have hpositive : 0 < 4 * x.significand * x.quarterNum e :=
    Nat.mul_pos (Nat.mul_pos (by decide) (Nat.pos_of_ne_zero hx)) hnum
  have hfloor : x.multiplesBelow e = n := by
    rw [multiplesBelow, hscaled, Nat.mul_div_cancel_left _ (x.quarterDen_pos e)]
  have hrest : x.restBelow e = 0 := by
    rw [restBelow, hscaled, Nat.mul_mod_right]
  refine exists_multiple? ⟨?_, ?_⟩
  · rw [hfloor]
    rintro rfl
    omega
  · have hgap := Nat.mul_pos x.quarterBelow_pos hnum
    rw [hrest, Inside]
    split_ifs
    · exact hgap.le
    · exact hgap

/-! ## The search -/

/-- The search stops at a hit that is no lower than a known one. -/
theorem search_eq (h : x.multiple? tie e₀ = some k) (hle : e₀ ≤ e) (hfuel : e < e₀ + fuel) :
    ∃ digits e₁, x.search tie fuel e = ⟨digits, e₁⟩ ∧ x.multiple? tie e₁ = some digits ∧
      e₀ ≤ e₁ := by
  induction fuel generalizing e with
  | zero => omega
  | succ fuel ih =>
    rw [search]
    cases hhere : x.multiple? tie e with
    | some digits => exact ⟨digits, e, rfl, hhere, hle⟩
    | none =>
      have hne : e₀ ≠ e := by
        rintro rfl
        rw [h] at hhere
        cases hhere
      exact ih (by omega) (by omega)

/-- Every double is a multiple of a power of ten, since two divides ten. -/
theorem exists_magnitude_eq {n : Nat} (h : -(n : Int) ≤ x.exponent) :
    ∃ m : Nat, x.magnitude = m * 10 ^ (-(n : Int)) := by
  have htwo : (2 : ℚ) ^ (x.exponent + n).toNat = 2 ^ n * x.step := by
    rw [← zpow_natCast, Int.toNat_of_nonneg (by omega), two_zpow_exponent_add]
  refine ⟨x.significand * 2 ^ (x.exponent + n).toNat * 5 ^ n, ?_⟩
  have hten : (10 : ℚ) ^ n ≠ 0 := by positivity
  push_cast
  rw [htwo, zpow_neg, zpow_natCast, ← div_eq_mul_inv, eq_div_iff hten, magnitude,
    show (10 : ℚ) = 2 * 5 by norm_num, mul_pow]
  ring

/-- Where a multiple is known the shortest decimal is one, of a power that is no lower. -/
theorem shortest_of_multiple? (hx : x.significand ≠ 0) (h : x.multiple? tie e₀ = some k)
    (hlow : -1074 ≤ e₀) (hhigh : e₀ ≤ 1) :
    x.Takes (x.shortest tie).value ∧ e₀ ≤ (x.shortest tie).exponent := by
  have hzero : ¬x.isZero = true := by
    rw [isZero, beq_iff_eq]
    intro hcode
    rw [significand, hcode] at hx
    exact hx rfl
  rw [shortest, if_neg hzero]
  dsimp only
  obtain ⟨digits, e₁, hsearch, hmultiple, hle⟩ := search_eq h
    (show e₀ ≤ (x.exponent + 53).toNat * 31 / 100 + 1 by omega)
    (show (x.exponent + 53).toNat * 31 / 100 + 1 <
      e₀ + (((x.exponent + 53).toNat * 31 / 100 + 1 : Int) + 1075).toNat by omega)
  rw [hsearch, Decimal.value_strip]
  exact ⟨takes_of_multiple? hmultiple, hle.trans (Decimal.exponent_le_strip _ _)⟩

theorem takes_shortest (hx : x.significand ≠ 0) : x.Takes (x.shortest tie).value := by
  obtain ⟨m, hm⟩ := exists_magnitude_eq (n := 1074) x.exponent_ge
  obtain ⟨k, hk⟩ : ∃ k, x.multiple? tie (-1074) = some k := exists_multiple?_of_eq hx hm
  exact (shortest_of_multiple? hx hk (by omega) (by omega)).1

/-! ## Reading back -/

/-- A quotient in the interval is read as the double. -/
theorem Takes.nearest_eq {num den : Nat} (h : x.Takes ((num : ℚ) / den)) (hden : 0 < den) :
    nearest x.negative num den = finite x := by
  have hcode := h.nearestCode_eq hden
  rw [nearest, dif_pos (hcode.trans_lt x.code_lt)]
  congr

theorem eq_zero_of_significand (h : x.significand = 0) : x = zero x.negative := by
  have hexponent : x.exponent = -1074 := by
    by_contra hne
    have hfull := fractions_le_significand (lt_of_le_of_ne x.exponent_ge (Ne.symm hne))
    rw [h] at hfull
    exact absurd hfull (by decide)
  have hcode : x.code = 0 := by
    rw [← x.code_eq, h, hexponent]
    rfl
  obtain ⟨negative, code, hlt⟩ := x
  obtain rfl : code = 0 := hcode
  rfl

theorem Takes.below_half {y : ℚ} (h : x.Takes y) : x.magnitude - y ≤ x.step / 2 := by
  have hstep := x.step_pos
  have hquarter : (x.quarterBelow : ℚ) ≤ 2 := by exact_mod_cast x.quarterBelow_le
  have hgap := mul_le_mul_of_nonneg_right hquarter (by positivity : 0 ≤ x.step / 4)
  have hbelow := h.below.le
  linarith

/-- No number of the interval has more digits than are looked at. -/
theorem Takes.size_le {d : Decimal} (h : x.Takes d.value) :
    d.exponent + decimalLength d.digits ≤ 311 := by
  have hpower : (2 : ℚ) ^ (x.exponent + 53) ≤ 2 ^ (1024 : Nat) := by
    rw [← zpow_natCast]
    have hexponent := x.exponent_le
    exact zpow_le_zpow_right₀ one_le_two (by push_cast; omega)
  have hdecimal : (2 : ℚ) ^ (1024 : Nat) ≤ 10 ^ (311 : Nat) := by
    have hle : (2 : Nat) ^ 1024 ≤ 10 ^ 311 := by decide +kernel
    exact_mod_cast hle
  have hlt : (10 : ℚ) ^ (d.exponent + decimalLength d.digits - 1) < 10 ^ ((311 : Nat) : Int) := by
    rw [zpow_natCast]
    exact ((Decimal.pow_le_value (Decimal.digits_ne_zero h.pos)).trans_lt h.lt_power).trans_le
      (hpower.trans hdecimal)
  have hsize := (zpow_lt_zpow_iff_right₀ (by norm_num)).1 hlt
  push_cast at hsize
  omega

/-- No number of the interval of a double other than zero is as small as half of the least one. -/
theorem Takes.size_ge {d : Decimal} (h : x.Takes d.value) (hx : x.significand ≠ 0) :
    -350 ≤ d.exponent + decimalLength d.digits := by
  have hstep := x.step_pos
  have hgap := h.below_half
  have hsignificand : (1 : ℚ) ≤ x.significand := by exact_mod_cast Nat.one_le_iff_ne_zero.2 hx
  have hmagnitude : 1 * x.step ≤ x.magnitude := mul_le_mul_of_nonneg_right hsignificand hstep.le
  have hhalf : x.step / 2 ≤ d.value := by linarith
  have hleast : (2 : ℚ) ^ (-(1075 : Nat) : Int) ≤ x.step / 2 := by
    have hexponent := x.exponent_ge
    have hle : (2 : ℚ) ^ (-(1075 : Nat) : Int) ≤ 2 ^ (x.exponent - 1) :=
      zpow_le_zpow_right₀ one_le_two (by push_cast; omega)
    rwa [zpow_sub₀ two_ne_zero, zpow_one] at hle
  have hdecimal : (10 : ℚ) ^ (-(351 : Nat) : Int) ≤ 2 ^ (-(1075 : Nat) : Int) := by
    have hle : (2 : Nat) ^ 1075 ≤ 10 ^ 351 := by decide +kernel
    have hle : (2 : ℚ) ^ 1075 ≤ 10 ^ 351 := by exact_mod_cast hle
    rw [zpow_neg, zpow_neg, zpow_natCast, zpow_natCast]
    exact inv_anti₀ (by positivity) hle
  have hlt := (hdecimal.trans (hleast.trans hhalf)).trans_lt d.value_lt
  have hsize := (zpow_lt_zpow_iff_right₀ (by norm_num)).1 hlt
  push_cast at hsize
  omega

/-- A decimal in the interval is read as the double. -/
theorem Takes.ofDecimal_eq {d : Decimal} (h : x.Takes d.value) :
    ofDecimal x.negative d.digits d.exponent = finite x := by
  have hsize := h.size_le
  dsimp only [ofDecimal]
  rw [if_neg (Decimal.digits_ne_zero h.pos), if_neg (by omega)]
  split_ifs with hsmall hexponent
  · by_cases hx : x.significand = 0
    · rw [← eq_zero_of_significand hx]
    · exact absurd (h.size_ge hx) (not_le.2 hsmall)
  · refine Takes.nearest_eq ?_ Nat.one_pos
    have hvalue := Decimal.cast_whole hexponent
    rw [Decimal.whole] at hvalue
    rwa [Nat.pow_eq, hvalue, Nat.cast_one, div_one]
  · refine Takes.nearest_eq ?_ (Nat.pow_pos (by decide))
    have hpower : (10 : ℚ) ^ d.exponent = ((Nat.pow 10 (-d.exponent).toNat : Nat) : ℚ)⁻¹ := by
      rw [Nat.pow_eq, Nat.cast_pow, ← zpow_natCast, ← zpow_neg, Int.toNat_of_nonneg (by omega),
        neg_neg]
      rfl
    have hvalue := h
    rwa [Decimal.value, hpower, ← div_eq_mul_inv] at hvalue

/-- The shortest decimal is read as the double, and so is each decimal of the same value. -/
theorem ofDecimal_of_value_eq {d : Decimal} (h : d.value = (x.shortest tie).value) :
    ofDecimal x.negative d.digits d.exponent = finite x := by
  by_cases hx : x.significand = 0
  · have hzero := eq_zero_of_significand hx
    have hshortest : (x.shortest tie).value = 0 := by
      rw [hzero]
      exact zero_mul _
    have hdigits : d.digits = 0 := by
      by_contra hne
      have hpos := (zpow_pos (by norm_num) _).trans_le (Decimal.pow_le_value hne)
      rw [h, hshortest] at hpos
      exact hpos.false
    rw [ofDecimal, if_pos hdigits, ← hzero]
  · exact Takes.ofDecimal_eq (h ▸ takes_shortest hx)

end Finite

end Tabula.Double
