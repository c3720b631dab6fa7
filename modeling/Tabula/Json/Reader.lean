import Tabula.Json.Basic
import Tabula.Text.Hex

/-!
# Reading JSON

The grammar of RFC 8259, nothing more: no leading zeros, no raw control characters in strings, no
half of a surrogate pair, no number beyond the range of doubles, nothing after the value but
blanks. A key that comes again in an object replaces the value of the first.

Every reader takes the characters that are left and gives what it read with what is left after
it. Nesting deeper than `depth` is refused; `fuel` only bounds the number of steps, and
`Json.parse` gives more of it than a text of that length can use.
-/

namespace Tabula.Json

/-- Drops blanks. -/
def skipBlanks (cs : List Char) : List Char :=
  cs.dropWhile fun c => c = ' ' ∨ c = '\t' ∨ c = '\n' ∨ c = '\r'

/-! ## Strings -/

/-- The value of four hexadecimal digits. -/
def readUnit : List Char → Option (Nat × List Char)
  | a :: b :: c :: d :: rest => do
    let ds ← [a, b, c, d].mapM Hex.digitValue?
    return (ds.foldl (fun n d => 16 * n + d) 0, rest)
  | _ => none

/-- The character of an escape, the backslash already read. A high surrogate needs its low half
escaped behind it. -/
def readEscape : List Char → Option (Char × List Char)
  | '"' :: rest => some ('"', rest)
  | '\\' :: rest => some ('\\', rest)
  | '/' :: rest => some ('/', rest)
  | 'b' :: rest => some ('\x08', rest)
  | 'f' :: rest => some ('\x0c', rest)
  | 'n' :: rest => some ('\n', rest)
  | 'r' :: rest => some ('\r', rest)
  | 't' :: rest => some ('\t', rest)
  | 'u' :: rest => do
    let (unit, rest) ← readUnit rest
    if 0xDC00 ≤ unit ∧ unit < 0xE000 then none
    else if 0xD800 ≤ unit ∧ unit < 0xDC00 then
      match rest with
      | '\\' :: 'u' :: rest => do
        let (low, rest) ← readUnit rest
        if 0xDC00 ≤ low ∧ low < 0xE000 then
          return (Char.ofNat (0x10000 + (unit - 0xD800) * 0x400 + (low - 0xDC00)), rest)
        else none
      | _ => none
    else return (Char.ofNat unit, rest)
  | _ => none

/-- The characters of a string up to its closing quote. -/
def readChars : Nat → List Char → Option (List Char × List Char)
  | 0, _ => none
  | _ + 1, [] => none
  | _ + 1, '"' :: rest => some ([], rest)
  | fuel + 1, '\\' :: rest => do
    let (c, rest) ← readEscape rest
    let (cs, rest) ← readChars fuel rest
    return (c :: cs, rest)
  | fuel + 1, c :: rest =>
    if c.toNat < 0x20 then none
    else do
      let (cs, rest) ← readChars fuel rest
      return (c :: cs, rest)

/-- A string, the opening quote already read. -/
def readString (cs : List Char) : Option (String × List Char) := do
  let (s, rest) ← readChars (cs.length + 1) cs
  return (String.ofList s, rest)

/-! ## Numbers -/

/-- A run of digits. -/
def spanDigits (cs : List Char) : List Char × List Char :=
  (cs.takeWhile Char.isDigit, cs.dropWhile Char.isDigit)

/-- The number that digits stand for. -/
def digitsValue (ds : List Char) : Nat :=
  ds.foldl (fun n d => 10 * n + (d.toNat - 48)) 0

/-- A run of digits that is not empty. -/
def readDigits (cs : List Char) : Option (List Char × List Char) :=
  match spanDigits cs with
  | ([], _) => none
  | (ds, rest) => some (ds, rest)

/-- The digits before the point: a single zero or a run that starts with no zero. -/
def readWhole : List Char → Option (List Char × List Char)
  | '0' :: rest =>
    match rest with
    | c :: _ => if c.isDigit then none else some (['0'], rest)
    | [] => some (['0'], rest)
  | cs => readDigits cs

/-- The digits after a point, if there is one. -/
def readFraction : List Char → Option (Option (List Char) × List Char)
  | '.' :: rest => do
    let (ds, rest) ← readDigits rest
    return (some ds, rest)
  | cs => some (none, cs)

/-- An exponent, if there is one. -/
def readExponent : List Char → Option (Option Int × List Char)
  | c :: rest =>
    if c = 'e' ∨ c = 'E' then
      match rest with
      | '+' :: rest => do
        let (ds, rest) ← readDigits rest
        return (some (digitsValue ds : Int), rest)
      | '-' :: rest => do
        let (ds, rest) ← readDigits rest
        return (some (-(digitsValue ds : Int)), rest)
      | _ => do
        let (ds, rest) ← readDigits rest
        return (some (digitsValue ds : Int), rest)
    else some (none, c :: rest)
  | [] => some (none, [])

/-- The number of a decimal; a decimal beyond the range of doubles has none. -/
def Number.ofDecimal? (negative : Bool) (digits : Nat) (exponent : Int) : Option Number :=
  match Double.ofDecimal negative digits exponent with
  | .finite x => some (.real x)
  | _ => none

/-- The number of an integer: the integer itself if it fits, else a double. Minus zero is a
double. -/
def Number.ofInteger? (negative : Bool) (magnitude : Nat) : Option Number :=
  let n : Int := if negative then -magnitude else magnitude
  if h : -9223372036854775808 ≤ n ∧ n < 18446744073709551616 then
    if negative ∧ magnitude = 0 then some (.real (Double.Finite.zero true))
    else some (.int n h)
  else ofDecimal? negative magnitude 0

/-- A number without its sign. -/
def readMagnitude (negative : Bool) (cs : List Char) : Option (Number × List Char) := do
  let (whole, rest) ← readWhole cs
  let (fraction, rest) ← readFraction rest
  let (exponent, rest) ← readExponent rest
  let n ← match fraction, exponent with
    | none, none => Number.ofInteger? negative (digitsValue whole)
    | _, _ =>
      let places := fraction.getD []
      Number.ofDecimal? negative (digitsValue (whole ++ places))
        (exponent.getD 0 - places.length)
  return (n, rest)

/-- A number. -/
def readNumber : List Char → Option (Number × List Char)
  | '-' :: rest => readMagnitude true rest
  | cs => readMagnitude false cs

/-! ## Values -/

mutual

/-- A value, blanks before it allowed. -/
def readValue (fuel depth : Nat) (cs : List Char) : Option (Json × List Char) :=
  match fuel with
  | 0 => none
  | fuel + 1 =>
    match skipBlanks cs with
    | 'n' :: 'u' :: 'l' :: 'l' :: rest => some (.null, rest)
    | 't' :: 'r' :: 'u' :: 'e' :: rest => some (.bool true, rest)
    | 'f' :: 'a' :: 'l' :: 's' :: 'e' :: rest => some (.bool false, rest)
    | '"' :: rest => do
      let (s, rest) ← readString rest
      return (.str s, rest)
    | '[' :: rest =>
      match depth with
      | 0 => none
      | depth + 1 =>
        match skipBlanks rest with
        | ']' :: rest => some (.arr [], rest)
        | rest => do
          let (items, rest) ← readItems fuel depth rest
          return (.arr items, rest)
    | '\x7b' :: rest =>
      match depth with
      | 0 => none
      | depth + 1 =>
        match skipBlanks rest with
        | '\x7d' :: rest => some (.obj [], rest)
        | rest => do
          let (members, rest) ← readMembers fuel depth rest []
          return (.obj members, rest)
    | cs => do
      let (n, rest) ← readNumber cs
      return (.number n, rest)

/-- The items of an array up to its closing bracket. -/
def readItems (fuel depth : Nat) (cs : List Char) : Option (List Json × List Char) :=
  match fuel with
  | 0 => none
  | fuel + 1 => do
    let (item, rest) ← readValue fuel depth cs
    match skipBlanks rest with
    | ',' :: rest => do
      let (items, rest) ← readItems fuel depth rest
      return (item :: items, rest)
    | ']' :: rest => some ([item], rest)
    | _ => none

/-- The members of an object up to its closing brace, after those already read. -/
def readMembers (fuel depth : Nat) (cs : List Char) (before : Keyed Json) :
    Option (Keyed Json × List Char) :=
  match fuel with
  | 0 => none
  | fuel + 1 =>
    match skipBlanks cs with
    | '"' :: rest => do
      let (key, rest) ← readString rest
      match skipBlanks rest with
      | ':' :: rest => do
        let (value, rest) ← readValue fuel depth rest
        match skipBlanks rest with
        | ',' :: rest => readMembers fuel depth rest (before.put key value)
        | '\x7d' :: rest => some (before.put key value, rest)
        | _ => none
      | _ => none
    | _ => none

end

/-- The nesting that a text may have at most. -/
def maxDepth : Nat := 127

/-- The value of a whole text whose nesting is at most `depth`. -/
def parseWithin (depth : Nat) (s : String) : Option Json :=
  let cs := s.toList
  match readValue (2 * cs.length + 2) depth cs with
  | some (j, rest) => if (skipBlanks rest).isEmpty then some j else none
  | none => none

/-- The value of a whole text. -/
def parse (s : String) : Option Json :=
  parseWithin maxDepth s

end Tabula.Json
