/-!
# Bytes as hexadecimal text

Two digits a byte. Writing comes in both cases; reading takes the pairs one after another, and a
pair is either two digits or a plus sign and one digit.
-/

namespace Tabula.Hex

/-- The digit of a number below 16, in lower case. -/
def lowerDigit (n : Nat) : Char :=
  if n < 10 then Char.ofNat (48 + n) else Char.ofNat (87 + n)

/-- The digit of a number below 16, in upper case. -/
def upperDigit (n : Nat) : Char :=
  if n < 10 then Char.ofNat (48 + n) else Char.ofNat (55 + n)

/-- The value of a digit of either case. -/
def digitValue? (c : Char) : Option Nat :=
  if '0' ≤ c ∧ c ≤ '9' then some (c.toNat - 48)
  else if 'a' ≤ c ∧ c ≤ 'f' then some (c.toNat - 87)
  else if 'A' ≤ c ∧ c ≤ 'F' then some (c.toNat - 55)
  else none

/-- Bytes in lower case. -/
def lower (bytes : List UInt8) : String :=
  String.ofList (bytes.flatMap fun b => [lowerDigit (b.toNat / 16), lowerDigit (b.toNat % 16)])

/-- Bytes in upper case. -/
def upper (bytes : List UInt8) : String :=
  String.ofList (bytes.flatMap fun b => [upperDigit (b.toNat / 16), upperDigit (b.toNat % 16)])

/-- The byte of a pair. -/
def pair? (high low : Char) : Option UInt8 :=
  if high = '+' then (digitValue? low).map UInt8.ofNat
  else do
    let h ← digitValue? high
    let l ← digitValue? low
    return UInt8.ofNat (16 * h + l)

/-- The bytes of a text of pairs. A text with an odd number of characters has none. -/
def bytes? : List Char → Option (List UInt8)
  | [] => some []
  | [_] => none
  | high :: low :: rest => do
    let b ← pair? high low
    return b :: (← bytes? rest)

end Tabula.Hex
