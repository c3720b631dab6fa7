import Tabula.Json.Writer

/-!
# Storage values

What the store keeps in a cell and takes for a placeholder: one of five storage classes. The
module relates them to JSON and to each other; `Value.Literal` writes them as SQL.
-/

namespace Tabula

/-- A value of one of the five storage classes. -/
inductive Value where
  | integer (n : Int64)
  | real (x : Double)
  | text (s : String)
  | blob (bytes : List UInt8)
  | null
deriving DecidableEq

namespace Value

instance : Inhabited Value := ⟨null⟩

def isNull : Value → Bool
  | null => true
  | _ => false

/-! ## JSON -/

/-- A number is stored as an integer if it is one of 64 bits with a sign, else as a real. -/
def ofNumber (n : Json.Number) : Value :=
  match n.int64? with
  | some i => integer i
  | none => real n.toDouble

/-- How JSON is stored where no column says more: booleans as 0 and 1, arrays and objects as
their text. -/
def ofJson : Json → Value
  | .null => null
  | .bool b => integer (if b then 1 else 0)
  | .number n => ofNumber n
  | .str s => text s
  | .arr items => text (Json.arr items).text
  | .obj members => text (Json.obj members).text

/-- A value as JSON where no column says more. Reals that no JSON number stands for become
null, a blob the array of its bytes. -/
def toJson : Value → Json
  | integer n => .ofInt64 n
  | real (.finite x) => .number (.real x)
  | real _ => .null
  | text s => .str s
  | blob bytes => .ofBytes bytes
  | null => .null

/-! ## Order -/

/-- The place of the storage class in the order of values. -/
def rank : Value → Nat
  | integer _ => 0
  | real _ => 1
  | text _ => 2
  | blob _ => 3
  | null => 4

/-- Values are ordered by storage class first, then by content: numbers by value, texts by
code points, blobs by bytes. A real that is not a number is comparable with no real. -/
def compare? : Value → Value → Option Ordering
  | integer m, integer n => some (compare m.toInt n.toInt)
  | real x, real y => x.compare? y
  | text s, text t => some (compareLex (s.toList.map Char.toNat) (t.toList.map Char.toNat))
  | blob b, blob c => some (compareLex (b.map UInt8.toNat) (c.map UInt8.toNat))
  | a, b => some (compare a.rank b.rank)
where
  /-- The lexicographic order. -/
  compareLex : List Nat → List Nat → Ordering
    | [], [] => .eq
    | [], _ :: _ => .lt
    | _ :: _, [] => .gt
    | m :: ms, n :: ns => (compare m n).then (compareLex ms ns)

/-- Whether two values are equal as the order sees them: `0.0` equals `-0.0`, and what is not a
number equals nothing. -/
def same (a b : Value) : Bool :=
  a.compare? b == some .eq

end Value

/-! ## Values of other types -/

/-- Types whose elements can be given where a storage value is asked for. -/
class ToValue (α : Type) where
  toValue : α → Value

export ToValue (toValue)

instance : ToValue Value := ⟨id⟩

instance : ToValue Int64 := ⟨.integer⟩

instance : ToValue Int32 := ⟨fun n => .integer n.toInt64⟩

instance : ToValue UInt32 := ⟨fun n => .integer n.toUInt64.toInt64⟩

instance : ToValue Bool := ⟨fun b => .integer (if b then 1 else 0)⟩

instance : ToValue Double := ⟨.real⟩

instance : ToValue String := ⟨.text⟩

instance : ToValue (List UInt8) := ⟨.blob⟩

instance : ToValue Json := ⟨.ofJson⟩

instance {α : Type} [ToValue α] : ToValue (Option α) :=
  ⟨fun | some a => toValue a | none => .null⟩

end Tabula
