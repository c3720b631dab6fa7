import Tabula.Calendar.Date
import Tabula.Error

/-!
# Instants as text

An instant is a number of milliseconds since 1970-01-01T00:00:00Z. It is written in UTC with three
digits of milliseconds, and read from any RFC 3339 text: with any offset, any number of fraction
digits, and a leap second counted as the second after it. Reading goes from left to right, and the
first thing wrong decides the fault, but for a time that no clock shows: it is found after its
fraction, and a date that no calendar has before its time.
-/

namespace Tabula.Instant

def millisPerDay : Int := 86400000

/-- The first instant that has a text, `-262143-01-01T00:00:00.000Z`. -/
def earliest : Int := (Date.mk (-262143) 1 1).toDays * millisPerDay

/-- The last instant that has a text, `+262142-12-31T23:59:59.999Z`. -/
def latest : Int := (Date.mk 262143 1 1).toDays * millisPerDay - 1

/-! ## Writing -/

/-- A number with at least `width` digits. -/
def padded (width n : Nat) : List Char :=
  let digits := Nat.toDigits 10 n
  List.replicate (width - digits.length) '0' ++ digits

/-- A year: four digits, or a sign and at least four digits outside of `0..9999`. -/
def yearText (year : Int) : List Char :=
  if 0 ≤ year ∧ year ≤ 9999 then padded 4 year.toNat
  else (if year < 0 then '-' else '+') :: padded 4 year.natAbs

/-- The text of an instant, which need not be one that has a text. -/
def text (millis : Int) : String :=
  let date := Date.ofDays (millis.fdiv millisPerDay)
  let time := (millis.fmod millisPerDay).toNat
  String.ofList (yearText date.year ++ '-' :: padded 2 date.month ++ '-' :: padded 2 date.day
    ++ 'T' :: padded 2 (time / 3600000) ++ ':' :: padded 2 (time / 60000 % 60)
    ++ ':' :: padded 2 (time / 1000 % 60) ++ '.' :: padded 3 (time % 1000) ++ ['Z'])

/-- The text of an instant. -/
def format (millis : Int) : Except MappingFault String :=
  if earliest ≤ millis ∧ millis ≤ latest then .ok (text millis)
  else .error (.outOfDateRange millis)

/-! ## Reading -/

def isDigit (b : UInt8) : Bool :=
  48 ≤ b && b ≤ 57

def digitValue (b : UInt8) : Nat :=
  b.toNat - 48

/-- Exactly `n` digits; anything else, the end included, is invalid. -/
def digits (n : Nat) (bs : List UInt8) : Except DateFault (Nat × List UInt8) :=
  let ds := bs.take n
  if ds.length = n ∧ ds.all isDigit then
    .ok (ds.foldl (fun v d => 10 * v + digitValue d) 0, bs.drop n)
  else .error .invalid

/-- One of the given bytes. -/
def oneOf (allowed : List UInt8) : List UInt8 → Except DateFault (List UInt8)
  | b :: rest => if b ∈ allowed then .ok rest else .error .invalid
  | [] => .error .invalid

/-- A date that the calendar has. -/
def date (bs : List UInt8) : Except DateFault (Date × List UInt8) := do
  let (year, bs) ← digits 4 bs
  let bs ← oneOf [45] bs
  let (month, bs) ← digits 2 bs
  let bs ← oneOf [45] bs
  let (day, bs) ← digits 2 bs
  let date : Date := ⟨year, month, day⟩
  if date.Exists then return (date, bs) else throw .outOfRange

/-- The milliseconds of a fraction of a second, if a point follows. Digits after the ninth are
skipped. -/
def fraction : List UInt8 → Except DateFault (Nat × List UInt8)
  | 46 :: rest =>
    match rest with
    | [] => .error .tooShort
    | b :: _ =>
      if isDigit b then
        let ds := (rest.takeWhile isDigit).take 3
        let value := ds.foldl (fun v d => 10 * v + digitValue d) 0
        .ok (value * Nat.pow 10 (3 - ds.length), rest.dropWhile isDigit)
      else .error .invalid
  | bs => .ok (0, bs)

/-- The milliseconds of a time of day. -/
def time (bs : List UInt8) : Except DateFault (Nat × List UInt8) := do
  let (hour, bs) ← digits 2 bs
  let bs ← oneOf [58] bs
  let (minute, bs) ← digits 2 bs
  let bs ← oneOf [58] bs
  let (second, bs) ← digits 2 bs
  let (millis, bs) ← fraction bs
  if 23 < hour ∨ 59 < minute ∨ 60 < second then throw .outOfRange
  else return (((hour * 60 + minute) * 60 + second) * 1000 + millis, bs)

/-- The hours of an offset. -/
def offsetHours : List UInt8 → Except DateFault (Nat × List UInt8)
  | a :: b :: rest =>
    if isDigit a ∧ isDigit b then .ok (digitValue a * 10 + digitValue b, rest)
    else .error .invalid
  | _ => .error .tooShort

/-- The minutes of an offset; two digits from 60 on are out of range. -/
def offsetMinutes : List UInt8 → Except DateFault (Nat × List UInt8)
  | a :: b :: rest =>
    if isDigit a ∧ isDigit b then
      if digitValue a < 6 then .ok (digitValue a * 10 + digitValue b, rest)
      else .error .outOfRange
    else .error .invalid
  | _ => .error .tooShort

/-- The minutes of an offset with its sign: `Z`, or a sign, hours and minutes. The sign may be
U+2212. -/
def offset : List UInt8 → Except DateFault (Int × List UInt8)
  | [] => .error .tooShort
  | 90 :: rest => .ok (0, rest)
  | 122 :: rest => .ok (0, rest)
  | 43 :: rest => signed 1 rest
  | 45 :: rest => signed (-1) rest
  | 0xE2 :: 0x88 :: 0x92 :: rest => signed (-1) rest
  | _ => .error .invalid
where
  /-- Hours and minutes behind a sign. -/
  signed (sign : Int) (bs : List UInt8) : Except DateFault (Int × List UInt8) := do
    let (hours, bs) ← offsetHours bs
    match bs with
    | [] => throw .tooShort
    | 58 :: bs =>
      let (minutes, bs) ← offsetMinutes bs
      return (sign * (hours * 60 + minutes), bs)
    | _ => throw .invalid

/-- The instant of the bytes of a text. -/
def ofBytes (bs : List UInt8) : Except DateFault Int := do
  if bs.length < 19 then throw .tooShort
  let (date, bs) ← date bs
  let bs ← oneOf [84, 116, 32] bs
  let (time, bs) ← time bs
  let (offset, bs) ← offset bs
  unless bs.isEmpty do throw .tooLong
  unless offset.natAbs < 24 * 60 do throw .outOfRange
  return date.toDays * millisPerDay + time - offset * 60000

/-- The instant of a text. -/
def parse (s : String) : Except MappingFault Int :=
  (ofBytes (s.toList.flatMap String.utf8EncodeChar)).mapError (.invalidDate s)

end Tabula.Instant
