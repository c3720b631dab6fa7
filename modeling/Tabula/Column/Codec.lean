import Tabula.Column.Basic
import Tabula.Calendar.Instant

/-!
# The values of a column

`Column.encode` turns what a caller gives into what is stored, `Column.decode` turns it back.
Included rows arrive as JSON, with blobs in hexadecimal: `Column.embedded` is the SQL that puts a
column there, and `Column.decodeEmbedded` reads it.
-/

namespace Tabula

namespace ColumnKind

/-- A blob is given as the array of its bytes; anything else is stored as it comes. -/
def encodeBlob : Json → Except MappingFault Value
  | .arr items => Value.blob <$> items.mapM byte
  | j => .ok (.ofJson j)
where
  byte : Json → Except MappingFault UInt8
    | .number n =>
      match n.byte? with
      | some b => .ok b
      | none => .error (.notByte (.number n))
    | j => .error (.notByte j)

/-- A date is given as the text of an instant or as its milliseconds. -/
def encodeDate : Json → Except MappingFault Value
  | .null => .ok .null
  | .str s => (fun millis => .integer (Int64.ofInt millis)) <$> Instant.parse s
  | .number n =>
    match n.int64? with
    | some millis => .ok (.integer millis)
    | none => .error (.notMillis n)
  | j => .error (.notDate j)

/-- The stored form of what a caller gives. -/
def encode : ColumnKind → Json → Except MappingFault Value
  | blob, j => encodeBlob j
  | date, j => encodeDate j
  | integer, j | text, j | real, j | boolean, j => .ok (.ofJson j)

/-- A stored number is true unless it is zero. -/
def decodeBoolean : Value → Json
  | .integer n => .bool (n ≠ 0)
  | .real x => .bool (!x.isZero)
  | v => v.toJson

/-- A stored number is the milliseconds of an instant. -/
def decodeDate : Value → Except MappingFault Json
  | .integer millis => Json.str <$> Instant.format millis.toInt
  | .real millis => Json.str <$> Instant.format millis.toInt64.toInt
  | v => .ok v.toJson

/-- The caller's form of what is stored. -/
def decode : ColumnKind → Value → Except MappingFault Json
  | boolean, v => .ok (decodeBoolean v)
  | date, v => decodeDate v
  | integer, v | text, v | real, v | blob, v => .ok v.toJson

/-- The array of the bytes of a hexadecimal text. -/
def decodeHex (s : String) : Except MappingFault Json :=
  if s.utf8ByteSize % 2 ≠ 0 then .error (.oddHex s)
  else match Hex.bytes? s.toList with
    | some bytes => .ok (.ofBytes bytes)
    | none => .error (.invalidHex s)

/-- The caller's form of what an included row holds. -/
def decodeEmbedded : ColumnKind → Json → Except MappingFault Json
  | boolean, j => decode boolean (.ofJson j)
  | date, j => decode date (.ofJson j)
  | blob, .str s => decodeHex s
  | blob, j | integer, j | text, j | real, j => .ok j

end ColumnKind

namespace Column

/-- The stored form of what a caller gives. -/
def encode (c : Column) (j : Json) : Except Error Value :=
  (c.kind.encode j).mapError .mapping

/-- The caller's form of what is stored. -/
def decode (c : Column) (v : Value) : Except Error Json :=
  (c.kind.decode v).mapError .mapping

/-- The caller's form of what an included row holds. -/
def decodeEmbedded (c : Column) (j : Json) : Except Error Json :=
  (c.kind.decodeEmbedded j).mapError .mapping

/-- The SQL that puts the column of the row known as `row` into JSON. JSON has no blobs, so they
travel in hexadecimal. -/
def embedded (c : Column) (row : String) : String :=
  match c.kind with
  | .blob => s!"case when {row}.{c.name} is null then null else hex({row}.{c.name}) end"
  | _ => s!"{row}.{c.name}"

end Column

end Tabula
