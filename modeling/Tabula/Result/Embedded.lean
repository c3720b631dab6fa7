import Tabula.Schema.Basic
import Tabula.Statement.Inclusion
import Tabula.Json.Reader

/-!
# Reading included rows

`Relation.decode` turns the JSON of an embedded relation into the caller's form. The JSON comes as
text in a row of the result and as it is inside of an included row. Columns are decoded by the
table, relations that were included by the relation, and any other member stays as it is.
-/

namespace Tabula

namespace Relation

/-- Reads the relations included in a row, each under its name. -/
abbrev Decoders := Keyed (Relation → Json → Except Error Json)

/-- The JSON of a payload. -/
def payload : Json → Except Error Json
  | .str s =>
    match Json.parse s with
    | some j => .ok j
    | none => .error .malformedPayload
  | j => .ok j

/-- The members of an included row of a table. -/
def decodeMembers (s : Schema) (table : Table) (inner : Decoders) (members : List (String × Json)) :
    Except Error (List (String × Json)) :=
  members.mapM fun (key, j) => do
    match table.column? key with
    | some c => return (key, ← c.decodeEmbedded j)
    | none =>
      match inner.get? key with
      | some decode => return (key, ← decode (← s.relation table.key key) j)
      | none => return (key, j)

/-- The included rows of a relation: an object or null for one, an array for many. -/
def decodeRows (s : Schema) (inner : Decoders) (r : Relation) (j : Json) : Except Error Json := do
  let j ← payload j
  let table ← s.tableNamed r.referenced
  match r.kind, j with
  | .one, .obj members => return .obj (← decodeMembers s table inner members)
  | .one, _ => return .null
  | .many, .arr items =>
    return .arr (← items.mapM fun
      | .obj members => Json.obj <$> decodeMembers s table inner members
      | j => .error (.mapping (.notEmbedded j)))
  | .many, _ => return .arr []

mutual

/-- The caller's form of the rows that an inclusion asked for. -/
def decode (s : Schema) : Inclusion → Relation → Json → Except Error Json
  | ⟨_, relations⟩ => decodeRows s (decoders s relations)

def decoders (s : Schema) : List (String × Inclusion) → Decoders
  | [] => []
  | (name, inner) :: rest => (name, decode s inner) :: decoders s rest

end

end Relation

end Tabula
