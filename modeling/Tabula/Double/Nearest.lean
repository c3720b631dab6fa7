import Tabula.Double.Basic

/-!
# The nearest double

`Double.nearest` rounds a quotient of natural numbers to the nearest double, a tie to the even
code. `Double.ofDecimal` reads `digits * 10 ^ exponent` through it and is what every reader of
decimal text uses.
-/

namespace Tabula.Double

/-- The quotient rounded to the nearest integer, a tie to the even one. -/
def roundHalfEven (num den : Nat) : Nat :=
  let q := num / den
  let r := num % den
  if 2 * r < den then q
  else if den < 2 * r then q + 1
  else if q % 2 = 0 then q else q + 1

/-- The exponent of the highest bit of a quotient of positive numbers. -/
def binaryExponent (num den : Nat) : Int :=
  let e : Int := num.log2 - den.log2
  let reached :=
    if 0 ≤ e then den * Nat.pow 2 e.toNat ≤ num else den ≤ num * Nat.pow 2 (-e).toNat
  if reached then e else e - 1

/-- The code nearest to a quotient; from `infinityCode` on the quotient is out of range. -/
def nearestCode (num den : Nat) : Nat :=
  if num = 0 then 0
  else
    let q := max (binaryExponent num den - 52) (-1074)
    let significand :=
      if 0 ≤ q then roundHalfEven num (den * Nat.pow 2 q.toNat)
      else roundHalfEven (num * Nat.pow 2 (-q).toNat) den
    (q + 1074).toNat * fractions + significand

/-- The double nearest to a quotient, with a sign. -/
def nearest (negative : Bool) (num den : Nat) : Double :=
  if h : nearestCode num den < infinityCode then finite ⟨negative, nearestCode num den, h⟩
  else infinite negative

/-- The double nearest to an integer. -/
def ofInt (n : Int) : Double :=
  nearest (n < 0) n.natAbs 1

/-- The number of decimal digits of a natural number, at least one. -/
def decimalLength (n : Nat) : Nat :=
  (Nat.toDigits 10 n).length

/-- The double nearest to `digits * 10 ^ exponent`. Magnitudes from `10 ^ 310` on and below
`10 ^ -350` round to infinity and to zero whatever their digits, so no power is taken of them. -/
def ofDecimal (negative : Bool) (digits : Nat) (exponent : Int) : Double :=
  if digits = 0 then finite (Finite.zero negative)
  else
    let size := exponent + decimalLength digits
    if 311 < size then infinite negative
    else if size < -350 then finite (Finite.zero negative)
    else if 0 ≤ exponent then nearest negative (digits * Nat.pow 10 exponent.toNat) 1
    else nearest negative digits (Nat.pow 10 (-exponent).toNat)

end Tabula.Double
