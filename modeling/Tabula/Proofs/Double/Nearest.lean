import Tabula.Double.Nearest
import Mathlib.Tactic.SplitIfs

/-!
# Large integers as doubles

Integers from `2 ^ 63` to `2 ^ 64` are as far apart as doubles there are 2048: such an integer
becomes the double of its nearest multiple of 2048, which is again an integer.
-/

namespace Tabula.Double

/-! ## Rounding -/

theorem le_roundHalfEven (num den : Nat) : num / den ≤ roundHalfEven num den := by
  dsimp only [roundHalfEven]
  split_ifs <;> omega

theorem roundHalfEven_le (num den : Nat) : roundHalfEven num den ≤ num / den + 1 := by
  dsimp only [roundHalfEven]
  split_ifs <;> omega

/-- Rounding moves a number by no more than half of the step. -/
theorem two_mul_roundHalfEven (num : Nat) {den : Nat} (hden : 0 < den) :
    2 * num ≤ 2 * (den * roundHalfEven num den) + den ∧
      2 * (den * roundHalfEven num den) ≤ 2 * num + den := by
  have hsplit : den * (num / den) + num % den = num := Nat.div_add_mod num den
  have hrest : num % den < den := Nat.mod_lt num hden
  have hnext : den * (num / den + 1) = den * (num / den) + den := Nat.mul_succ den (num / den)
  dsimp only [roundHalfEven]
  split_ifs <;> omega

/-- Only multiples of the step stay as they are. -/
theorem mul_roundHalfEven_eq_iff (num : Nat) {den : Nat} (hden : 0 < den) :
    den * roundHalfEven num den = num ↔ den ∣ num := by
  constructor
  · intro h
    exact ⟨_, h.symm⟩
  · rintro ⟨q, rfl⟩
    have hquotient : den * q / den = q := Nat.mul_div_cancel_left q hden
    have hrest : den * q % den = 0 := Nat.mul_mod_right den q
    dsimp only [roundHalfEven]
    rw [hquotient, hrest, if_pos (by omega)]

/-! ## Codes -/

/-- The code of the double nearest to an unsigned integer that is too large for a sign. -/
theorem nearestCode_eq {n : Nat} (hle : 9223372036854775808 ≤ n) (hlt : n < 18446744073709551616) :
    nearestCode n 1 = 1085 * fractions + roundHalfEven n 2048 := by
  have hlog : n.log2 = 63 := (Nat.log2_eq_iff (by omega)).2 ⟨hle, hlt⟩
  have hone : (1 : Nat).log2 = 0 := rfl
  have hexponent : binaryExponent n 1 = 63 := by
    have hreached : 1 * Nat.pow 2 63 ≤ n := hle
    dsimp only [binaryExponent]
    rw [hlog, hone]
    exact if_pos hreached
  dsimp only [nearestCode]
  rw [if_neg (by omega), hexponent]
  rfl

/-- Multiples of 2048 in this range, divided by it, fill the 53 bits of a significand. -/
theorem roundHalfEven_bounds {n : Nat} (hle : 9223372036854775808 ≤ n)
    (hlt : n < 18446744073709551616) :
    fractions ≤ roundHalfEven n 2048 ∧ roundHalfEven n 2048 ≤ 2 * fractions := by
  have hfloor := le_roundHalfEven n 2048
  have hceil := roundHalfEven_le n 2048
  unfold fractions
  omega

/-- An unsigned integer that is too large for a sign is no more than a double can be. -/
theorem nearestCode_lt {n : Nat} (hle : 9223372036854775808 ≤ n) (hlt : n < 18446744073709551616) :
    nearestCode n 1 < infinityCode := by
  have hbounds := roundHalfEven_bounds hle hlt
  rw [nearestCode_eq hle hlt]
  unfold infinityCode fractions at *
  omega

theorem exists_finite_ofInt {n : Int} (hle : 9223372036854775808 ≤ n)
    (hlt : n < 18446744073709551616) : ∃ x, ofInt n = .finite x ∧ x.negative = false ∧
      x.code = 1085 * fractions + roundHalfEven n.natAbs 2048 := by
  have hcode : nearestCode n.natAbs 1 < infinityCode := nearestCode_lt (by omega) (by omega)
  refine ⟨⟨decide (n < 0), nearestCode n.natAbs 1, hcode⟩, dif_pos hcode, ?_, ?_⟩
  · exact decide_eq_false (by omega)
  · exact nearestCode_eq (by omega) (by omega)

/-! ## Integers among the doubles -/

namespace Finite

theorem signedCode_of_not {x : Finite} (hsign : x.negative = false) : x.signedCode = x.code := by
  rw [signedCode, hsign]
  rfl

theorem truncate_of_exponent {x : Finite} {e : Nat} (hsign : x.negative = false)
    (hexponent : x.exponent = e) : x.truncate = (x.significand * Nat.pow 2 e : Nat) := by
  have hwhole : (0 : Int) ≤ e := Int.natCast_nonneg e
  rw [truncate, hsign, hexponent, if_neg Bool.false_ne_true, if_pos hwhole, Int.toNat_natCast]

/-- The double of such a code has nothing to cut off. -/
theorem truncate_of_code {x : Finite} {k : Nat} (hsign : x.negative = false)
    (hle : fractions ≤ k) (hlt : k ≤ 2 * fractions) (hcode : x.code = 1085 * fractions + k) :
    0 ≤ x.exponent ∧ x.truncate = 2048 * k := by
  unfold fractions at hle hlt hcode
  have hnormal : ¬x.code < fractions := by unfold fractions; omega
  rcases Nat.lt_or_eq_of_le hlt with hlt | rfl
  · have hexponent : x.exponent = (11 : Nat) := by
      rw [exponent, if_neg hnormal]
      unfold fractions
      omega
    have hsignificand : x.significand = k := by
      rw [significand, if_neg hnormal]
      unfold fractions
      omega
    have hpower : Nat.pow 2 11 = 2048 := rfl
    refine ⟨by omega, ?_⟩
    rw [truncate_of_exponent hsign hexponent, hsignificand, hpower]
    omega
  -- the largest significand takes one bit more, so it counts as half with the next exponent
  · have hexponent : x.exponent = (12 : Nat) := by
      rw [exponent, if_neg hnormal]
      unfold fractions
      omega
    have hsignificand : x.significand = fractions := by
      rw [significand, if_neg hnormal]
      unfold fractions
      omega
    refine ⟨by omega, ?_⟩
    rw [truncate_of_exponent hsign hexponent, hsignificand]
    rfl

end Finite

end Tabula.Double
