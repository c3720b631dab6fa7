/-!
# Doubles

IEEE 754 binary64 numbers, kept as what their bits say: a sign and a code, the exponent and
fraction bits read as one natural number. Codes grow with the magnitude they stand for, so order
and equality of finite doubles are order and equality of signed codes. There is one not-a-number.

`Double.Nearest` rounds a quotient to a double, `Double.Shortest` finds the fewest digits that
read back, and `Double.Layout` writes them.
-/

namespace Tabula

namespace Double

/-- The number of codes that share an exponent, two to the power 52. -/
abbrev fractions : Nat := 4503599627370496

/-- The code of infinity; every smaller code is finite. -/
abbrev infinityCode : Nat := 2047 * fractions

/-- A finite double. -/
structure Finite where
  negative : Bool
  code : Nat
  code_lt : code < infinityCode := by decide
deriving DecidableEq

end Double

/-- A double: finite, infinite or not a number. -/
inductive Double where
  | finite (x : Double.Finite)
  | infinite (negative : Bool)
  | nan
deriving DecidableEq

namespace Double

namespace Finite

/-- Zero, with a sign. -/
def zero (negative : Bool) : Finite where
  negative := negative
  code := 0

def isZero (x : Finite) : Bool :=
  x.code == 0

/-- The integer `m` of the magnitude `m * 2 ^ q`. -/
def significand (x : Finite) : Nat :=
  if x.code < fractions then x.code else fractions + x.code % fractions

/-- The exponent `q` of the magnitude `m * 2 ^ q`. -/
def exponent (x : Finite) : Int :=
  if x.code < fractions then -1074 else (x.code / fractions : Nat) - 1075

/-- Grows with the value; both zeros have 0. -/
def signedCode (x : Finite) : Int :=
  if x.negative then -(x.code : Int) else x.code

/-- The value with its fraction cut off. -/
def truncate (x : Finite) : Int :=
  let magnitude : Nat :=
    if 0 ≤ x.exponent then x.significand * Nat.pow 2 x.exponent.toNat
    else x.significand / Nat.pow 2 (-x.exponent).toNat
  if x.negative then -(magnitude : Int) else magnitude

end Finite

/-- Grows with the value; not a number has none. -/
def orderCode? : Double → Option Int
  | finite x => some x.signedCode
  | infinite negative => some (if negative then -(infinityCode : Int) else infinityCode)
  | nan => none

/-- The order of two doubles; not a number has no place in it. -/
def compare? (a b : Double) : Option Ordering := do
  return compare (← a.orderCode?) (← b.orderCode?)

/-- Whether the value is a zero of either sign. -/
def isZero : Double → Bool
  | finite x => x.isZero
  | _ => false

/-- The nearest 64-bit integer of the value without its fraction; not a number gives 0. -/
def toInt64 : Double → Int64
  | finite x => Int64.ofInt (max (-9223372036854775808) (min 9223372036854775807 x.truncate))
  | infinite negative => if negative then Int64.minValue else Int64.maxValue
  | nan => 0

end Double

end Tabula
