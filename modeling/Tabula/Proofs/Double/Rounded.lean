import Tabula.Proofs.Double.Nearest
import Tabula.Double.Shortest
import Mathlib.Algebra.Order.Field.Power
import Mathlib.Algebra.Order.Field.Rat
import Mathlib.Tactic.Linarith
import Mathlib.Tactic.NormNum
import Mathlib.Tactic.Positivity
import Mathlib.Tactic.Ring

/-!
# Numbers that round to a double

Around each double lie the numbers that it is the nearest double to: half of the step above it, and
below it half of the step there, which is half as wide under a power of two. The ends belong to the
interval if the significand is even. Rounding gives the double for each of these numbers.
-/

namespace Tabula.Double

/-! ## Quotients -/

section

variable {num den m : Nat} {e q : Int}

theorem roundHalfEven_eq (hden : 0 < den) (hlow : (m : ℚ) - 1 / 2 ≤ num / den)
    (hhigh : (num : ℚ) / den ≤ m + 1 / 2)
    (htie : m % 2 = 0 ∨ (m : ℚ) - 1 / 2 < num / den ∧ (num : ℚ) / den < m + 1 / 2) :
    roundHalfEven num den = m := by
  have hden' : (0 : ℚ) < den := by exact_mod_cast hden
  have hlow' : 2 * (den * m) ≤ 2 * num + den := by
    rw [le_div_iff₀ hden'] at hlow
    have : (2 : ℚ) * (den * m) ≤ 2 * num + den := by linarith
    exact_mod_cast this
  have hhigh' : 2 * num ≤ 2 * (den * m) + den := by
    rw [div_le_iff₀ hden'] at hhigh
    have : (2 : ℚ) * num ≤ 2 * (den * m) + den := by linarith
    exact_mod_cast this
  have htie' : m % 2 = 0 ∨ 2 * (den * m) < 2 * num + den ∧ 2 * num < 2 * (den * m) + den := by
    refine htie.imp_right fun ⟨h₁, h₂⟩ => ?_
    rw [lt_div_iff₀ hden'] at h₁
    rw [div_lt_iff₀ hden'] at h₂
    have h₁ : (2 : ℚ) * (den * m) < 2 * num + den := by linarith
    have h₂ : (2 : ℚ) * num < 2 * (den * m) + den := by linarith
    exact ⟨by exact_mod_cast h₁, by exact_mod_cast h₂⟩
  have hsplit : den * (num / den) + num % den = num := Nat.div_add_mod num den
  have hrest : num % den < den := Nat.mod_lt num hden
  -- the quotient without its rest is `m` or one less
  have hquotient : num / den = m ∨ num / den + 1 = m := by
    have hle : num / den ≤ m := by
      by_contra h
      have := Nat.mul_le_mul_left den (show m + 1 ≤ num / den by omega)
      rw [Nat.mul_succ] at this
      omega
    have hge : m ≤ num / den + 1 := by
      by_contra h
      have := Nat.mul_le_mul_left den (show num / den + 2 ≤ m by omega)
      rw [Nat.mul_add] at this
      omega
    omega
  rcases hquotient with hquotient | hquotient
  · have hproduct : den * (num / den) = den * m := by rw [hquotient]
    dsimp only [roundHalfEven]
    split_ifs <;> omega
  · have hproduct : den * m = den * (num / den) + den := by rw [← hquotient, Nat.mul_succ]
    dsimp only [roundHalfEven]
    split_ifs <;> omega

/-- Powers of two that are reached. -/
theorem pow_le_div_iff (hden : 0 < den) : (2 : ℚ) ^ e ≤ num / den ↔
    if 0 ≤ e then den * Nat.pow 2 e.toNat ≤ num else den ≤ num * Nat.pow 2 (-e).toNat := by
  have hden' : (0 : ℚ) < den := by exact_mod_cast hden
  rw [le_div_iff₀ hden']
  split_ifs with he
  · have hpow : (2 : ℚ) ^ e = (2 : ℚ) ^ e.toNat := by
      rw [← zpow_natCast, Int.toNat_of_nonneg he]
    rw [hpow, mul_comm]
    exact_mod_cast Iff.rfl
  · have hpow : (2 : ℚ) ^ e = ((2 : ℚ) ^ (-e).toNat)⁻¹ := by
      rw [← zpow_natCast, Int.toNat_of_nonneg (by omega), zpow_neg, inv_inv]
    rw [hpow, inv_mul_le_iff₀ (by positivity), mul_comm]
    exact_mod_cast Iff.rfl

/-- The highest bit of a quotient. -/
theorem binaryExponent_bounds (hnum : 0 < num) (hden : 0 < den) :
    (2 : ℚ) ^ binaryExponent num den ≤ num / den ∧
      (num : ℚ) / den < 2 ^ (binaryExponent num den + 1) := by
  have hden' : (0 : ℚ) < den := by exact_mod_cast hden
  have hnumLow : (2 : ℚ) ^ (num.log2 : Int) ≤ num := by
    exact_mod_cast Nat.log2_self_le (by omega)
  have hnumHigh : (num : ℚ) < 2 ^ ((num.log2 : Int) + 1) := by
    exact_mod_cast Nat.lt_log2_self
  have hdenLow : (2 : ℚ) ^ (den.log2 : Int) ≤ den := by
    exact_mod_cast Nat.log2_self_le (by omega)
  have hdenHigh : (den : ℚ) < 2 ^ ((den.log2 : Int) + 1) := by
    exact_mod_cast Nat.lt_log2_self
  have hlow : (2 : ℚ) ^ ((num.log2 : Int) - den.log2 - 1) ≤ num / den := by
    rw [le_div_iff₀ hden']
    calc (2 : ℚ) ^ ((num.log2 : Int) - den.log2 - 1) * den
        ≤ 2 ^ ((num.log2 : Int) - den.log2 - 1) * 2 ^ ((den.log2 : Int) + 1) := by gcongr
      _ = 2 ^ (num.log2 : Int) := by
        rw [← zpow_add₀ two_ne_zero]
        congr 1
        ring
      _ ≤ num := hnumLow
  have hhigh : (num : ℚ) / den < 2 ^ ((num.log2 : Int) - den.log2 + 1) := by
    rw [div_lt_iff₀ hden']
    calc (num : ℚ) < 2 ^ ((num.log2 : Int) + 1) := hnumHigh
      _ = 2 ^ ((num.log2 : Int) - den.log2 + 1) * 2 ^ (den.log2 : Int) := by
        rw [← zpow_add₀ two_ne_zero]
        congr 1
        ring
      _ ≤ 2 ^ ((num.log2 : Int) - den.log2 + 1) * den := by gcongr
  dsimp only [binaryExponent]
  split_ifs with hsign hreached hreached
  · exact ⟨(pow_le_div_iff hden).2 (by rwa [if_pos hsign]), hhigh⟩
  · refine ⟨hlow, ?_⟩
    rw [sub_add_cancel, ← not_le, pow_le_div_iff hden, if_pos hsign]
    exact hreached
  · exact ⟨(pow_le_div_iff hden).2 (by rwa [if_neg hsign]), hhigh⟩
  · refine ⟨hlow, ?_⟩
    rw [sub_add_cancel, ← not_le, pow_le_div_iff hden, if_neg hsign]
    exact hreached

theorem binaryExponent_lt (hnum : 0 < num) (hden : 0 < den) (h : (num : ℚ) / den < 2 ^ e) :
    binaryExponent num den < e :=
  (zpow_lt_zpow_iff_right₀ one_lt_two).1 ((binaryExponent_bounds hnum hden).1.trans_lt h)

theorem binaryExponent_eq (hnum : 0 < num) (hden : 0 < den) (hlow : (2 : ℚ) ^ e ≤ num / den)
    (hhigh : (num : ℚ) / den < 2 ^ (e + 1)) : binaryExponent num den = e := by
  have hle : binaryExponent num den < e + 1 := binaryExponent_lt hnum hden hhigh
  have hge : e < binaryExponent num den + 1 :=
    (zpow_lt_zpow_iff_right₀ one_lt_two).1 (hlow.trans_lt (binaryExponent_bounds hnum hden).2)
  omega

/-- A quotient in units of a power of two, rounded. -/
theorem rounded_eq (hden : 0 < den) (hlow : ((m : ℚ) - 1 / 2) * 2 ^ q ≤ num / den)
    (hhigh : (num : ℚ) / den ≤ (m + 1 / 2) * 2 ^ q)
    (htie : m % 2 = 0 ∨
      ((m : ℚ) - 1 / 2) * 2 ^ q < num / den ∧ (num : ℚ) / den < (m + 1 / 2) * 2 ^ q) :
    (if 0 ≤ q then roundHalfEven num (den * Nat.pow 2 q.toNat)
      else roundHalfEven (num * Nat.pow 2 (-q).toNat) den) = m := by
  have hstep : (0 : ℚ) < 2 ^ q := by positivity
  have hden' : (0 : ℚ) < den := by exact_mod_cast hden
  rw [← le_div_iff₀ hstep] at hlow
  rw [← div_le_iff₀ hstep] at hhigh
  rw [← lt_div_iff₀ hstep, ← div_lt_iff₀ hstep] at htie
  split_ifs with hq
  · have hquotient : ((num : ℚ)) / den / 2 ^ q = num / (den * Nat.pow 2 q.toNat : Nat) := by
      rw [div_div]
      congr 1
      have hpow : (2 : ℚ) ^ q = (2 : ℚ) ^ q.toNat := by
        rw [← zpow_natCast, Int.toNat_of_nonneg hq]
      rw [hpow]
      exact_mod_cast rfl
    rw [hquotient] at hlow hhigh htie
    exact roundHalfEven_eq (Nat.mul_pos hden (Nat.two_pow_pos _)) hlow hhigh htie
  · have hquotient : ((num : ℚ)) / den / 2 ^ q = (num * Nat.pow 2 (-q).toNat : Nat) / den := by
      have hpow : (2 : ℚ) ^ q = ((2 : ℚ) ^ (-q).toNat)⁻¹ := by
        rw [← zpow_natCast, Int.toNat_of_nonneg (by omega), zpow_neg, inv_inv]
      rw [hpow, div_inv_eq_mul, div_mul_eq_mul_div]
      exact_mod_cast rfl
    rw [hquotient] at hlow hhigh htie
    exact roundHalfEven_eq hden hlow hhigh htie

end

/-! ## Intervals -/

namespace Finite

variable {x : Finite} {y : ℚ} {num den : Nat}

/-- The distance from the magnitude to the next one. -/
def step (x : Finite) : ℚ :=
  2 ^ x.exponent

/-- The value without its sign. -/
def magnitude (x : Finite) : ℚ :=
  x.significand * x.step

/-- A distance up to the end of an interval. The end counts only if the significand is even. -/
def Reaches (x : Finite) (distance gap : ℚ) : Prop :=
  if x.significand % 2 = 0 then distance ≤ gap else distance < gap

/-- The positive numbers that the double is the nearest one to. -/
structure Takes (x : Finite) (y : ℚ) : Prop where
  pos : 0 < y
  below : x.Reaches (x.magnitude - y) (x.quarterBelow * (x.step / 4))
  above : x.Reaches (y - x.magnitude) (x.step / 2)

theorem step_pos (x : Finite) : 0 < x.step := by
  unfold step
  positivity

theorem cast_fractions : (fractions : ℚ) = 2 ^ 52 := by
  norm_num

/-- Powers of two above the step. -/
theorem two_zpow_exponent_add (x : Finite) (k : Nat) :
    (2 : ℚ) ^ (x.exponent + k) = 2 ^ k * x.step := by
  rw [zpow_add₀ two_ne_zero, zpow_natCast, mul_comm, step]

theorem Reaches.le {distance gap : ℚ} (h : x.Reaches distance gap) : distance ≤ gap := by
  unfold Reaches at h
  split_ifs at h
  · exact h
  · exact h.le

theorem Reaches.lt {distance gap : ℚ} (h : x.Reaches distance gap) (hodd : x.significand % 2 ≠ 0) :
    distance < gap := by
  rwa [Reaches, if_neg hodd] at h

/-! ## Significands and exponents -/

theorem exponent_ge (x : Finite) : -1074 ≤ x.exponent := by
  unfold exponent fractions
  split_ifs <;> omega

theorem significand_lt (x : Finite) : x.significand < 2 * fractions := by
  unfold significand fractions
  split_ifs <;> omega

theorem exponent_le (x : Finite) : x.exponent ≤ 971 := by
  have hlt := x.code_lt
  unfold exponent
  unfold infinityCode fractions at *
  split_ifs <;> omega

theorem code_eq (x : Finite) :
    (x.exponent + 1074).toNat * fractions + x.significand = x.code := by
  by_cases hsubnormal : x.code < fractions
  · have hzero : ((-1074 : Int) + 1074).toNat = 0 := rfl
    rw [exponent, significand, if_pos hsubnormal, if_pos hsubnormal, hzero, Nat.zero_mul,
      Nat.zero_add]
  · rw [exponent, significand, if_neg hsubnormal, if_neg hsubnormal]
    unfold fractions at *
    omega

/-- Above the least exponent all bits of the significand are in use. -/
theorem fractions_le_significand (h : -1074 < x.exponent) : fractions ≤ x.significand := by
  unfold exponent significand fractions at *
  split_ifs at h ⊢ <;> omega

/-- The step below is as wide as the step, unless a power of two is left behind. -/
theorem quarterBelow_eq (h : -1074 < x.exponent → x.significand ≠ fractions) :
    x.quarterBelow = 2 := by
  unfold quarterBelow exponent significand fractions at *
  split_ifs at h ⊢ <;> omega

theorem quarterBelow_of_power (hexponent : -1074 < x.exponent)
    (hsignificand : x.significand = fractions) : x.quarterBelow = 1 := by
  unfold quarterBelow exponent significand fractions at *
  split_ifs at * <;> omega

theorem quarterBelow_le (x : Finite) : x.quarterBelow ≤ 2 := by
  unfold quarterBelow
  split_ifs <;> omega

/-! ## Rounding into the interval -/

theorem Takes.num_pos (h : x.Takes ((num : ℚ) / den)) : 0 < num := by
  rcases Nat.eq_zero_or_pos num with rfl | hnum
  · have hpos := h.pos
    simp at hpos
  · exact hnum

/-- No number of the interval is as large as the power of two above the significands. -/
theorem Takes.lt_power (h : x.Takes y) : y < 2 ^ (x.exponent + 53) := by
  have habove := h.above.le
  have hsignificand : (x.significand : ℚ) ≤ 2 ^ 53 - 1 := by
    have hlt := x.significand_lt
    have hle : x.significand + 1 ≤ 2 ^ 53 := hlt
    have hle : (x.significand : ℚ) + 1 ≤ 2 ^ 53 := by exact_mod_cast hle
    linarith
  have hmagnitude : x.magnitude ≤ (2 ^ 53 - 1) * x.step :=
    mul_le_mul_of_nonneg_right hsignificand x.step_pos.le
  have hpower : (2 : ℚ) ^ (x.exponent + 53) = 2 ^ 53 * x.step := x.two_zpow_exponent_add 53
  have hstep := x.step_pos
  rw [hpower]
  linarith

/-- Rounding in steps of the double itself. -/
theorem Takes.rounded (h : x.Takes ((num : ℚ) / den)) (hden : 0 < den)
    (hbelow : x.quarterBelow = 2 ∨ x.magnitude ≤ (num : ℚ) / den) :
    (if 0 ≤ x.exponent then roundHalfEven num (den * Nat.pow 2 x.exponent.toNat)
      else roundHalfEven (num * Nat.pow 2 (-x.exponent).toNat) den) = x.significand := by
  have hstep := x.step_pos
  have hlow : ((x.significand : ℚ) - 1 / 2) * x.step ≤ num / den := by
    have hmagnitude : x.magnitude = x.significand * x.step := rfl
    rcases hbelow with hbelow | hbelow
    · have hgap := h.below.le
      rw [hbelow] at hgap
      push_cast at hgap
      linarith
    · linarith
  have hhigh : (num : ℚ) / den ≤ (x.significand + 1 / 2) * x.step := by
    have hmagnitude : x.magnitude = x.significand * x.step := rfl
    have hgap := h.above.le
    linarith
  refine rounded_eq hden hlow hhigh ?_
  by_cases heven : x.significand % 2 = 0
  · exact .inl heven
  · have hmagnitude : x.magnitude = x.significand * x.step := rfl
    have hgap := h.above.lt heven
    have hgap' := h.below.lt heven
    refine .inr ⟨?_, ?_⟩
    · change ((x.significand : ℚ) - 1 / 2) * x.step < num / den
      rcases hbelow with hbelow | hbelow
      · rw [hbelow] at hgap'
        push_cast at hgap'
        linarith
      · linarith
    · change (num : ℚ) / den < (x.significand + 1 / 2) * x.step
      linarith

theorem Takes.power_le (h : x.Takes y) (hexponent : -1074 < x.exponent)
    (hbelow : x.quarterBelow = 2 ∧ x.significand ≠ fractions ∨ x.magnitude ≤ y) :
    2 ^ (x.exponent + 52) ≤ y := by
  have hstep := x.step_pos
  have hfull := fractions_le_significand hexponent
  have hpower : (2 : ℚ) ^ (x.exponent + 52) = fractions * x.step := by
    rw [cast_fractions]
    exact x.two_zpow_exponent_add 52
  have hmagnitude : x.magnitude = x.significand * x.step := rfl
  rw [hpower]
  rcases hbelow with ⟨hbelow, hne⟩ | hbelow
  · have hgap := h.below.le
    have hsignificand : (fractions : ℚ) + 1 ≤ x.significand := by
      exact_mod_cast Nat.lt_of_le_of_ne hfull (Ne.symm hne)
    have hproduct := mul_le_mul_of_nonneg_right hsignificand hstep.le
    rw [hbelow] at hgap
    push_cast at hgap
    linarith
  · have hsignificand : (fractions : ℚ) ≤ x.significand := by exact_mod_cast hfull
    have hproduct := mul_le_mul_of_nonneg_right hsignificand hstep.le
    linarith

/-- Under a power of two the exponent is less by one, and rounding carries over all bits. -/
theorem Takes.nearestCode_of_power (h : x.Takes ((num : ℚ) / den)) (hden : 0 < den)
    (hexponent : -1074 < x.exponent) (hsignificand : x.significand = fractions)
    (hbelow : (num : ℚ) / den < x.magnitude) : nearestCode num den = x.code := by
  have hnum := h.num_pos
  have hstep := x.step_pos
  have hmagnitude : x.magnitude = fractions * x.step := by rw [magnitude, hsignificand]
  have hgap := h.below.le
  rw [quarterBelow_of_power hexponent hsignificand] at hgap
  push_cast at hgap
  have hhalf : (2 : ℚ) ^ (x.exponent - 1) = x.step / 2 := by
    rw [zpow_sub₀ two_ne_zero, zpow_one]
    rfl
  have hlow : (2 : ℚ) ^ (x.exponent + 51) ≤ num / den := by
    have hpower : (2 : ℚ) ^ (x.exponent + 51) = 2 ^ 51 * x.step := x.two_zpow_exponent_add 51
    rw [hmagnitude, cast_fractions] at hgap
    rw [hpower]
    linarith
  have hhigh : (num : ℚ) / den < 2 ^ (x.exponent + 51 + 1) := by
    have hpower : (2 : ℚ) ^ (x.exponent + 51 + 1) = 2 ^ 52 * x.step := by
      rw [add_assoc]
      exact x.two_zpow_exponent_add 52
    rw [hpower, ← cast_fractions, ← hmagnitude]
    exact hbelow
  have hbit := binaryExponent_eq hnum hden hlow hhigh
  have hunit : max (binaryExponent num den - 52) (-1074) = x.exponent - 1 := by omega
  have hcarriedLow : (((2 * fractions : Nat) : ℚ) - 1 / 2) * 2 ^ (x.exponent - 1) ≤ num / den := by
    rw [hmagnitude] at hgap
    rw [hhalf, Nat.cast_mul]
    push_cast [cast_fractions] at hgap ⊢
    linarith
  have hcarriedHigh : (num : ℚ) / den ≤
      (((2 * fractions : Nat) : ℚ) + 1 / 2) * 2 ^ (x.exponent - 1) := by
    rw [hmagnitude] at hbelow
    rw [hhalf, Nat.cast_mul]
    push_cast [cast_fractions] at hbelow ⊢
    linarith
  have hcarried := rounded_eq hden hcarriedLow hcarriedHigh (.inl rfl)
  have hcode := x.code_eq
  have hplace : (x.exponent + 1074).toNat = (x.exponent - 1 + 1074).toNat + 1 := by omega
  dsimp only [nearestCode]
  rw [if_neg (by omega), hunit, hcarried]
  rw [← hcode, hplace, hsignificand]
  ring

/-- Each number of the interval rounds to the double. -/
theorem Takes.nearestCode_eq (h : x.Takes ((num : ℚ) / den)) (hden : 0 < den) :
    nearestCode num den = x.code := by
  have hnum := h.num_pos
  have hge := x.exponent_ge
  by_cases hpower : -1074 < x.exponent ∧ x.significand = fractions ∧ (num : ℚ) / den < x.magnitude
  · exact h.nearestCode_of_power hden hpower.1 hpower.2.1 hpower.2.2
  · have hbelow : x.quarterBelow = 2 ∧ (-1074 < x.exponent → x.significand ≠ fractions) ∨
        x.magnitude ≤ (num : ℚ) / den := by
      by_cases hne : -1074 < x.exponent → x.significand ≠ fractions
      · exact .inl ⟨quarterBelow_eq hne, hne⟩
      · obtain ⟨hexponent, hsignificand⟩ := Classical.not_imp.1 hne
        refine .inr (not_lt.1 fun hlt => hpower ⟨hexponent, ?_, hlt⟩)
        exact Classical.not_not.1 hsignificand
    have hexponent : max (binaryExponent num den - 52) (-1074) = x.exponent := by
      rcases Int.lt_or_eq_of_le hge with hlt | heq
      · have hlow := h.power_le hlt (hbelow.imp_left fun hb => ⟨hb.1, hb.2 hlt⟩)
        have hhigh : (num : ℚ) / den < 2 ^ (x.exponent + 52 + 1) := by
          rw [add_assoc]
          exact h.lt_power
        have hbit := binaryExponent_eq hnum hden hlow hhigh
        omega
      · have hbit := binaryExponent_lt hnum hden h.lt_power
        omega
    dsimp only [nearestCode]
    rw [if_neg (by omega), hexponent, h.rounded hden (hbelow.imp_left And.left), code_eq]

end Finite

end Tabula.Double
