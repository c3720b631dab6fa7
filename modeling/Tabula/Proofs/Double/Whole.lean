import Tabula.Proofs.Double.Shortest

/-!
# Whole doubles

The shortest decimal of a double is a whole number if and only if the double is one. Below `2 ^ 53`
the two are the same number; above it they need not be, but both are below `2 ^ 63` or neither is.
-/

namespace Tabula.Double.Finite

variable {x : Finite} {tie : Tie}

/-- The double stands for a whole number. -/
def Whole (x : Finite) : Prop :=
  ∃ n : Nat, x.magnitude = n

theorem whole_of_exponent (h : 0 ≤ x.exponent) : x.Whole := by
  refine ⟨x.significand * 2 ^ x.exponent.toNat, ?_⟩
  rw [magnitude, step, Nat.cast_mul, Nat.cast_pow, ← zpow_natCast, Int.toNat_of_nonneg h]
  rfl

/-- Where the step is no more than one, only the number itself is a whole one in the interval. -/
theorem Takes.magnitude_eq {n : Nat} (h : x.Takes n) (hexponent : x.exponent ≤ 0) :
    x.magnitude = n := by
  have hstep := x.step_pos
  have hpower : (2 : ℚ) ^ (-x.exponent).toNat * x.step = 1 := by
    rw [← zpow_natCast, Int.toNat_of_nonneg (by omega), step, ← zpow_add₀ two_ne_zero,
      neg_add_cancel, zpow_zero]
  have hnumber : (n : ℚ) = (n * 2 ^ (-x.exponent).toNat : Nat) * x.step := by
    push_cast
    rw [mul_assoc, hpower, mul_one]
  have hbelow : (2 * x.significand) * x.step ≤
      (2 * (n * 2 ^ (-x.exponent).toNat : Nat) + 1) * x.step := by
    have hgap := h.below_half
    have hmagnitude : x.magnitude = x.significand * x.step := rfl
    linarith
  have habove : (2 * (n * 2 ^ (-x.exponent).toNat : Nat)) * x.step ≤
      (2 * x.significand + 1) * x.step := by
    have hgap := h.above.le
    have hmagnitude : x.magnitude = x.significand * x.step := rfl
    linarith
  have hbelow : 2 * x.significand ≤ 2 * (n * 2 ^ (-x.exponent).toNat) + 1 := by
    exact_mod_cast le_of_mul_le_mul_right hbelow hstep
  have habove : 2 * (n * 2 ^ (-x.exponent).toNat) ≤ 2 * x.significand + 1 := by
    exact_mod_cast le_of_mul_le_mul_right habove hstep
  have hcount : x.significand = n * 2 ^ (-x.exponent).toNat := by omega
  rw [magnitude, hcount, ← hnumber]

theorem shortest_of_significand (h : x.significand = 0) : x.shortest tie = ⟨0, 0⟩ := by
  rw [eq_zero_of_significand h]
  rfl

theorem magnitude_of_significand (h : x.significand = 0) : x.magnitude = 0 := by
  rw [magnitude, h, Nat.cast_zero, zero_mul]

/-- The shortest decimal has a fraction if and only if the double has one. -/
theorem shortest_exponent_nonneg_iff : 0 ≤ (x.shortest tie).exponent ↔ x.Whole := by
  by_cases hx : x.significand = 0
  · rw [shortest_of_significand hx]
    exact iff_of_true le_rfl ⟨0, by rw [magnitude_of_significand hx, Nat.cast_zero]⟩
  · constructor
    · intro h
      by_cases hexponent : 0 ≤ x.exponent
      · exact whole_of_exponent hexponent
      · have htakes : x.Takes (x.shortest tie).value := takes_shortest hx
        rw [← Decimal.cast_whole h] at htakes
        exact ⟨_, htakes.magnitude_eq (not_le.1 hexponent).le⟩
    · rintro ⟨n, hn⟩
      have hmultiple : x.magnitude = n * 10 ^ (0 : Int) := by rw [hn, zpow_zero, mul_one]
      obtain ⟨k, hk⟩ : ∃ k, x.multiple? tie 0 = some k := exists_multiple?_of_eq hx hmultiple
      exact (shortest_of_multiple? hx hk (by omega) (by omega)).2

/-- All bits of the significand are in use, so small numbers have small exponents. -/
theorem exponent_lt {k : Int} (hk : -1074 < k) (h : x.magnitude < 2 ^ (k + 52)) :
    x.exponent < k := by
  by_contra hge
  have hfull : (fractions : ℚ) ≤ x.significand := by
    exact_mod_cast fractions_le_significand (show -1074 < x.exponent by omega)
  have hstep : (2 : ℚ) ^ k ≤ x.step := zpow_le_zpow_right₀ one_le_two (by omega)
  have hpower : (2 : ℚ) ^ (k + 52) = fractions * 2 ^ k := by
    rw [zpow_add₀ two_ne_zero, mul_comm]
    norm_num
  have hle : (fractions : ℚ) * 2 ^ k ≤ x.magnitude :=
    mul_le_mul hfull hstep (by positivity) (by positivity)
  rw [hpower] at h
  exact absurd h (not_lt.2 hle)

theorem takes_whole (hx : x.significand ≠ 0) (hwhole : x.Whole) :
    x.Takes (x.shortest tie).whole := by
  rw [Decimal.cast_whole (shortest_exponent_nonneg_iff.2 hwhole)]
  exact takes_shortest hx

/-- Whole doubles up to `2 ^ 53` are spelled exactly. -/
theorem shortest_whole_eq (hwhole : x.Whole) (h : x.magnitude < 2 ^ 53) :
    x.magnitude = (x.shortest tie).whole := by
  by_cases hx : x.significand = 0
  · rw [magnitude_of_significand hx, shortest_of_significand hx]
    rfl
  · have hexponent : x.exponent < 1 := exponent_lt (by decide) (by exact_mod_cast h)
    exact (takes_whole hx hwhole).magnitude_eq (by omega)

/-- At `2 ^ 63` the shortest decimal is greater than the number. -/
theorem shortest_of_code (h : x.code = 1086 * fractions) :
    x.shortest .up = ⟨9223372036854776, 3⟩ := by
  obtain ⟨negative, code, hlt⟩ := x
  obtain rfl : code = 1086 * fractions := h
  revert hlt
  cases negative <;> decide +kernel

theorem Takes.lt_of_magnitude_lt {n : Nat} (h : x.Takes n) (hlt : x.magnitude < 2 ^ 63) :
    n < 2 ^ 63 := by
  have hexponent : x.exponent < 11 := exponent_lt (by decide) (by exact_mod_cast hlt)
  have hpower : (2 : ℚ) ^ (x.exponent + 53) ≤ 2 ^ (63 : Int) :=
    zpow_le_zpow_right₀ one_le_two (by omega)
  have hlt : (n : ℚ) < 2 ^ (63 : Int) := h.lt_power.trans_le hpower
  exact_mod_cast hlt

/-- Above `2 ^ 63` no number of the interval is as small as that. -/
theorem Takes.pow_lt {n : Nat} (h : x.Takes n) (hcode : x.code ≠ 1086 * fractions)
    (hle : 2 ^ 63 ≤ x.magnitude) : 2 ^ 63 < n := by
  have hexponent : 11 ≤ x.exponent := by
    by_contra hsmall
    have hlt : (x.significand : ℚ) < 2 * fractions := by exact_mod_cast x.significand_lt
    have hstep : x.step ≤ 2 ^ (10 : Int) := zpow_le_zpow_right₀ one_le_two (by omega)
    have hmagnitude : x.magnitude < (2 * fractions) * 2 ^ (10 : Int) :=
      mul_lt_mul hlt hstep x.step_pos (by positivity)
    norm_num at hmagnitude hle
    linarith
  have hfull := fractions_le_significand (show -1074 < x.exponent by omega)
  have hbelow := h.below_half
  have hmagnitude : x.magnitude = x.significand * x.step := rfl
  have hpower : (2 : ℚ) ^ 63 = 9223372036854775808 := by norm_num
  rcases eq_or_lt_of_le hexponent with heq | hlarge
  · have hnext : fractions + 1 ≤ x.significand := by
      rcases eq_or_lt_of_le hfull with hpower | hlt
      · refine absurd ?_ hcode
        rw [← x.code_eq, ← heq, ← hpower]
        rfl
      · exact hlt
    have hnext : (fractions : ℚ) + 1 ≤ x.significand := by exact_mod_cast hnext
    have hstep : x.step = 2 ^ (11 : Int) := by rw [step, ← heq]
    have hproduct := mul_le_mul_of_nonneg_right hnext x.step_pos.le
    rw [hmagnitude, hstep] at hbelow
    rw [hstep] at hproduct
    norm_num at hproduct hbelow
    have hlt : (2 : ℚ) ^ 63 < n := by
      rw [hpower]
      linarith
    exact_mod_cast hlt
  · have hfull : (fractions : ℚ) ≤ x.significand := by exact_mod_cast hfull
    have hstep : (2 : ℚ) ^ (12 : Int) ≤ x.step := zpow_le_zpow_right₀ one_le_two (by omega)
    have hproduct := mul_le_mul_of_nonneg_right hfull x.step_pos.le
    norm_num at hstep hproduct
    have hlt : (2 : ℚ) ^ 63 < n := by
      rw [hpower]
      linarith
    exact_mod_cast hlt

/-- A whole double below `2 ^ 63` is spelled as an integer of 64 bits. -/
theorem shortest_whole_lt (hwhole : x.Whole) (h : x.magnitude < 2 ^ 63) :
    (x.shortest tie).whole < 2 ^ 63 := by
  by_cases hx : x.significand = 0
  · rw [shortest_of_significand hx]
    decide
  · exact (takes_whole hx hwhole).lt_of_magnitude_lt h

/-- Any greater one is spelled as an integer that 64 bits do not hold, whatever its sign. -/
theorem lt_shortest_whole (hwhole : x.Whole) (h : 2 ^ 63 ≤ x.magnitude) :
    2 ^ 63 < (x.shortest .up).whole := by
  have hx : x.significand ≠ 0 := by
    intro hx
    rw [magnitude_of_significand hx] at h
    norm_num at h
  by_cases hcode : x.code = 1086 * fractions
  · rw [shortest_of_code hcode]
    decide
  · exact (takes_whole hx hwhole).pow_lt hcode h

/-- The double is the nearest one to what it is spelled as. -/
theorem nearest_shortest_whole (hwhole : x.Whole) :
    nearest x.negative (x.shortest tie).whole 1 = finite x := by
  by_cases hx : x.significand = 0
  · rw [shortest_of_significand hx]
    conv_rhs => rw [eq_zero_of_significand hx]
    rfl
  · have htakes : x.Takes (x.shortest tie).whole := takes_whole hx hwhole
    rw [← div_one (((x.shortest tie).whole : Nat) : ℚ), ← Nat.cast_one (R := ℚ)] at htakes
    exact htakes.nearest_eq Nat.one_pos

end Tabula.Double.Finite
