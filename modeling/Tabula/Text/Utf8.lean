/-!
# Text from bytes that need not be UTF-8

The first byte of a character fixes how many bytes follow it and the range of the next one; the
others lie in `80..BF`. A run of bytes that starts a character but does not finish it, and a byte
that starts none, each become one replacement character.
-/

namespace Tabula.Utf8

/-- Stands for bytes that are no character. -/
def replacement : Char := '\uFFFD'

/-- What the first byte of a character asks of the bytes after it. -/
structure Lead where
  /-- The bits that the first byte itself contributes. -/
  bits : Nat
  /-- The range of the second byte. -/
  low : Nat
  high : Nat
  /-- The number of bytes after the second. -/
  more : Nat
deriving DecidableEq

/-- The demands of a byte from `C2` to `F4`; other bytes start no character of several bytes. -/
def lead? (b : Nat) : Option Lead :=
  if b < 0xC2 then none
  else if b < 0xE0 then some ⟨b - 0xC0, 0x80, 0xBF, 0⟩
  else if b = 0xE0 then some ⟨0, 0xA0, 0xBF, 1⟩
  else if b = 0xED then some ⟨0xD, 0x80, 0x9F, 1⟩
  else if b < 0xF0 then some ⟨b - 0xE0, 0x80, 0xBF, 1⟩
  else if b = 0xF0 then some ⟨0, 0x90, 0xBF, 2⟩
  else if b < 0xF4 then some ⟨b - 0xF0, 0x80, 0xBF, 2⟩
  else if b = 0xF4 then some ⟨4, 0x80, 0x8F, 2⟩
  else none

/-- A character that has begun: the bits so far, the range of the next byte, and how many bytes
are owed after that one. -/
structure Pending where
  bits : Nat
  low : Nat
  high : Nat
  more : Nat

/-- Reads bytes, given the character that has begun, if one has. -/
def decodeFrom : Option Pending → List UInt8 → List Char
  | none, [] => []
  | some _, [] => [replacement]
  | none, b :: rest => start b.toNat rest
  | some p, b :: rest =>
    if p.low ≤ b.toNat ∧ b.toNat ≤ p.high then
      let bits := p.bits * 64 + b.toNat % 64
      match p.more with
      | 0 => Char.ofNat bits :: decodeFrom none rest
      | n + 1 => decodeFrom (some ⟨bits, 0x80, 0xBF, n⟩) rest
    else replacement :: start b.toNat rest
where
  /-- Reads bytes from between two characters, the first byte given on its own. -/
  start (b : Nat) (rest : List UInt8) : List Char :=
    if b < 0x80 then Char.ofNat b :: decodeFrom none rest
    else match lead? b with
      | some l => decodeFrom (some ⟨l.bits, l.low, l.high, l.more⟩) rest
      | none => replacement :: decodeFrom none rest

/-- The text of bytes. -/
def decode (bytes : List UInt8) : String :=
  String.ofList (decodeFrom none bytes)

end Tabula.Utf8
