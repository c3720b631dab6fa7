import Tabula.Double.Basic

/-!
# The fewest digits that read back

A decimal reads back as a double if it lies in the interval of the numbers that round to it; the
ends belong to the interval if the significand is even. `Finite.shortest` looks for the largest
power of ten that has a multiple in the interval and takes the multiple nearest to the double,
so no shorter decimal reads back and none of that length is nearer.
-/

namespace Tabula.Double

/-- The number `digits * 10 ^ exponent`. -/
structure Decimal where
  digits : Nat
  exponent : Int
deriving DecidableEq

/-- Which of two equally near decimals is taken. -/
inductive Tie where
  | up
  | even
deriving DecidableEq

namespace Decimal

/-- Moves trailing zeros of the digits into the exponent. The first argument bounds their
number. -/
def strip : Nat → Decimal → Decimal
  | 0, d => d
  | fuel + 1, d =>
    if d.digits ≠ 0 ∧ d.digits % 10 = 0 then strip fuel ⟨d.digits / 10, d.exponent + 1⟩ else d

end Decimal

namespace Finite

/-- A quarter of the step below the double, in units of a quarter of its own step: the step is
half as wide under a power of two. -/
def quarterBelow (x : Finite) : Nat :=
  if x.code % fractions = 0 ∧ 2 * fractions ≤ x.code then 1 else 2

/-- The multiple of `10 ^ e` in the interval of `x` that is nearest to it, divided by
`10 ^ e`. -/
def multiple? (tie : Tie) (x : Finite) (e : Int) : Option Nat :=
  -- a quarter of the step is `num / den` in units of `10 ^ e`
  let s := x.exponent - 2
  let num := Nat.pow 2 s.toNat * Nat.pow 10 (-e).toNat
  let den := Nat.pow 2 (-s).toNat * Nat.pow 10 e.toNat
  let scaled := 4 * x.significand * num
  let floor := scaled / den
  let rest := scaled % den
  let inside := fun distance gap : Nat =>
    if x.significand % 2 = 0 then distance ≤ gap else distance < gap
  let low := floor ≠ 0 ∧ inside rest (x.quarterBelow * num)
  let high := inside (den - rest) (2 * num)
  if low ∧ high then
    if 2 * rest < den then some floor
    else if den < 2 * rest then some (floor + 1)
    else match tie with
      | .up => some (floor + 1)
      | .even => some (if floor % 2 = 0 then floor else floor + 1)
  else if low then some floor
  else if high then some (floor + 1)
  else none

/-- The first hit at exponents from `e` down. -/
def search (tie : Tie) (x : Finite) : Nat → Int → Decimal
  | 0, e => ⟨x.significand, e⟩
  | fuel + 1, e =>
    match x.multiple? tie e with
    | some digits => ⟨digits, e⟩
    | none => search tie x fuel (e - 1)

/-- The shortest decimal of the magnitude. No multiple of a power above the starting one is as
small as the double, and every double is a multiple of `10 ^ -1074`. -/
def shortest (tie : Tie) (x : Finite) : Decimal :=
  if x.isZero then ⟨0, 0⟩
  else
    let top : Int := (x.exponent + 53).toNat * 31 / 100 + 1
    (x.search tie (top + 1075).toNat top).strip 400

end Finite

end Tabula.Double
