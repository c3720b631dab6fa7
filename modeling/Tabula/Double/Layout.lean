import Tabula.Double.Shortest

/-!
# Doubles as text

A layout decides how the shortest digits of a double are written. There are two: `Layout.json` is
the number form of JSON texts, which has a point or an exponent in every double, and
`Layout.plain` is the form of SQL literals and displayed values, which never has an exponent.
-/

namespace Tabula.Double

/-- How digits are written. -/
structure Layout where
  /-- Which of two equally near decimals is taken. -/
  tie : Tie
  /-- The exponents of the first digit that are written with an exponent. -/
  scientific : Int → Bool
  /-- Whether a whole number ends in `.0`. -/
  pointZero : Bool

/-- Whole numbers keep a `.0`; numbers from `1e+16` on and below `1e-5` have an exponent; a tie
goes to the even digit. -/
def Layout.json : Layout where
  tie := .even
  scientific k := k < -5 || 16 ≤ k
  pointZero := true

/-- All digits, no exponent, whole numbers without a point; a tie goes up. -/
def Layout.plain : Layout where
  tie := .up
  scientific _ := false
  pointZero := false

/-- Digits with the point after the first `whole` of them; missing digits are zeros. -/
def positional (pointZero : Bool) (digits : List Char) (whole : Int) : List Char :=
  if whole ≤ 0 then '0' :: '.' :: (List.replicate (-whole).toNat '0' ++ digits)
  else
    let n := whole.toNat
    if digits.length ≤ n then
      digits ++ List.replicate (n - digits.length) '0' ++ (if pointZero then ['.', '0'] else [])
    else digits.take n ++ '.' :: digits.drop n

/-- Digits with the point after the first and the exponent of the first behind them. -/
def scientific (digits : List Char) (exponent : Int) : List Char :=
  let fraction := digits.drop 1
  let point := if fraction.isEmpty then [] else '.' :: fraction
  let sign := if exponent < 0 then '-' else '+'
  digits.take 1 ++ point ++ 'e' :: sign :: Nat.toDigits 10 exponent.natAbs

/-- The text of a finite double. -/
def Finite.render (layout : Layout) (x : Finite) : String :=
  let d := x.shortest layout.tie
  let digits := Nat.toDigits 10 d.digits
  let first := d.exponent + digits.length - 1
  let body :=
    if layout.scientific first then Double.scientific digits first
    else positional layout.pointZero digits (first + 1)
  String.ofList (if x.negative then '-' :: body else body)

/-- The text of a double without exponent. -/
def plain : Double → String
  | finite x => x.render .plain
  | infinite negative => if negative then "-inf" else "inf"
  | nan => "NaN"

end Tabula.Double
