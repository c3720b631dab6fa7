import Tabula.Keyed
import Tabula.Double.Nearest

/-!
# JSON values

The form in which callers give descriptors and values and get rows back. Objects keep the order
of their members. A number is an integer if it was written as one and fits 64 bits, signed or
unsigned; any other number is a finite double.

`Json.Reader` reads texts, `Json.Writer` writes them.
-/

namespace Tabula

namespace Json

/-- A JSON number. -/
inductive Number where
  | int (n : Int) (range : -9223372036854775808 ≤ n ∧ n < 18446744073709551616)
  | real (x : Double.Finite)
deriving DecidableEq

namespace Number

/-- The number as a signed 64-bit integer, if it is an integer and fits. -/
def int64? : Number → Option Int64
  | int n _ => if n < 9223372036854775808 then some (Int64.ofInt n) else none
  | real _ => none

/-- The number as a byte, if it is an integer and fits. -/
def byte? : Number → Option UInt8
  | int n _ => if 0 ≤ n ∧ n < 256 then some (UInt8.ofNat n.toNat) else none
  | real _ => none

/-- The nearest double. -/
def toDouble : Number → Double
  | int n _ => Double.ofInt n
  | real x => .finite x

/-- A signed 64-bit integer as a number. -/
def ofInt64 (n : Int64) : Number :=
  .int n.toInt ⟨n.le_toInt, by have := n.toInt_lt; omega⟩

/-- A byte as a number. -/
def ofByte (b : UInt8) : Number :=
  .int b.toNat ⟨by omega, by have := b.toNat_lt; omega⟩

end Number

end Json

/-- A JSON value. -/
inductive Json where
  | null
  | bool (b : Bool)
  | number (n : Json.Number)
  | str (s : String)
  | arr (items : List Json)
  | obj (members : List (String × Json))

namespace Json

instance : Inhabited Json := ⟨null⟩

/-- A signed 64-bit integer. -/
def ofInt64 (n : Int64) : Json :=
  .number (.ofInt64 n)

/-- An array of bytes. -/
def ofBytes (bytes : List UInt8) : Json :=
  .arr (bytes.map fun b => .number (.ofByte b))

/-- The members of an object. -/
def members? : Json → Option (Keyed Json)
  | obj ms => some ms
  | _ => none

/-- The members of an object whose values are all signed 64-bit integers. -/
def integers? (j : Json) : Option (Keyed Int64) := do
  (← j.members?).mapM fun
    | (key, .number n) => return (key, ← n.int64?)
    | _ => none

def isArray : Json → Bool
  | arr _ => true
  | _ => false

mutual

/-- Whether two values are the same, members of objects in the same order. -/
protected def decEq : (a b : Json) → Decidable (a = b)
  | .null, .null => isTrue rfl
  | .bool a, .bool b => decidable_of_iff (a = b) (by simp)
  | .number a, .number b => decidable_of_iff (a = b) (by simp)
  | .str a, .str b => decidable_of_iff (a = b) (by simp)
  | .arr xs, .arr ys =>
    have := Json.decEqItems xs ys
    decidable_of_iff (xs = ys) (by simp)
  | .obj xs, .obj ys =>
    have := Json.decEqMembers xs ys
    decidable_of_iff (xs = ys) (by simp)
  | .null, .bool _ | .null, .number _ | .null, .str _ | .null, .arr _ | .null, .obj _
  | .bool _, .null | .bool _, .number _ | .bool _, .str _ | .bool _, .arr _ | .bool _, .obj _
  | .number _, .null | .number _, .bool _ | .number _, .str _ | .number _, .arr _
  | .number _, .obj _ | .str _, .null | .str _, .bool _ | .str _, .number _ | .str _, .arr _
  | .str _, .obj _ | .arr _, .null | .arr _, .bool _ | .arr _, .number _ | .arr _, .str _
  | .arr _, .obj _ | .obj _, .null | .obj _, .bool _ | .obj _, .number _ | .obj _, .str _
  | .obj _, .arr _ => isFalse nofun

protected def decEqItems : (xs ys : List Json) → Decidable (xs = ys)
  | [], [] => isTrue rfl
  | [], _ :: _ => isFalse nofun
  | _ :: _, [] => isFalse nofun
  | x :: xs, y :: ys =>
    have := Json.decEq x y
    have := Json.decEqItems xs ys
    decidable_of_iff (x = y ∧ xs = ys) (by simp)

protected def decEqMembers : (xs ys : List (String × Json)) → Decidable (xs = ys)
  | [], [] => isTrue rfl
  | [], _ :: _ => isFalse nofun
  | _ :: _, [] => isFalse nofun
  | (k, x) :: xs, (l, y) :: ys =>
    have := Json.decEq x y
    have := Json.decEqMembers xs ys
    decidable_of_iff (k = l ∧ x = y ∧ xs = ys) (by simp [and_assoc])

end

instance : DecidableEq Json := Json.decEq

/-- An object whose keys are distinct, as payloads of inserts and updates are. -/
structure Object where
  members : Keyed Json
  distinct : members.keys.Nodup

namespace Object

/-- No members. -/
def empty : Object :=
  ⟨[], List.nodup_nil⟩

/-- Puts members one after another, so the last value of a key stands in its first place. -/
def ofMembers (members : List (String × Json)) : Object :=
  ⟨Keyed.putAll [] members, Keyed.nodup_keys_putAll (m := []) List.nodup_nil members⟩

/-- Sets one member. -/
def put (o : Object) (key : String) (value : Json) : Object :=
  ⟨o.members.put key value, Keyed.nodup_keys_put o.distinct key value⟩

/-- The object as a value. -/
def toJson (o : Object) : Json :=
  .obj o.members

end Object

end Json

end Tabula
