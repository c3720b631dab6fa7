import Tabula.Error

/-!
# Inclusions

An inclusion names the relations whose rows come with each row of a result, and for each of them
what is included in turn. A limit caps the rows of a relation to many. In JSON `true` includes a
relation with nothing in it, an object includes more, and the number `limit` is the limit.
-/

namespace Tabula

/-- The relations that come with a row. -/
structure Inclusion where
  limit : Option Int64
  relations : List (String × Inclusion)

namespace Inclusion

/-- Nothing included. -/
def empty : Inclusion :=
  ⟨none, []⟩

/-- Includes a relation and what comes with its rows, instead of what the relation had. -/
def including (i : Inclusion) (relation : String) (inner : Inclusion) : Inclusion :=
  ⟨i.limit, Keyed.put relation inner i.relations⟩

/-- Caps the rows. -/
def withLimit (i : Inclusion) (limit : Int64) : Inclusion :=
  ⟨some limit, i.relations⟩

/-- What is included of a relation. -/
def get? (i : Inclusion) (relation : String) : Option Inclusion :=
  Keyed.get? i.relations relation

def isEmpty (i : Inclusion) : Bool :=
  i.relations.isEmpty

mutual

/-- Adds what a member of an object says. -/
def addMember : Inclusion → String → Json → Except StatementFault Inclusion
  | i, _, .null => .ok i
  | i, _, .bool false => .ok i
  | i, key, .bool true => .ok (i.including key empty)
  | i, key, .obj members => do
    let inner ← addMembers empty members
    return i.including key inner
  | i, key, .number n =>
    if key = "limit" then
      match n.int64? with
      | some limit => .ok (i.withLimit limit)
      | none => .error (.limitNotInteger n)
    else .error (.notInclusion key (.number n))
  | _, key, j => .error (.notInclusion key j)

/-- Adds what the members of an object say, one after another. -/
def addMembers : Inclusion → List (String × Json) → Except StatementFault Inclusion
  | i, [] => .ok i
  | i, (key, j) :: rest => do
    let i ← addMember i key j
    addMembers i rest

end

/-- The inclusion of a JSON value. -/
def ofJson : Json → Except StatementFault Inclusion
  | .obj members => addMembers empty members
  | j => .error (.notObject .inclusion j)

end Inclusion

end Tabula
