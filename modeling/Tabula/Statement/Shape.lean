import Tabula.Error

/-!
# Result shapes

The shape of a result is an object whose entries are fields, SQL expressions or further shapes. In
JSON a text is a field, an object with the one member `$raw` an expression, any other object a
shape.
-/

namespace Tabula

/-- What stands under a key of a result. -/
inductive ShapeNode where
  /-- A field that a statement knows. -/
  | field (key : String)
  /-- An SQL expression, selected as it is. -/
  | raw (expression : String)
  | nested (entries : List (String × ShapeNode))

/-- The shape of a result. -/
abbrev Shape := Keyed ShapeNode

namespace Shape

mutual

/-- The node of a JSON value that stands under a key. -/
def nodeOfJson : String → Json → Except StatementFault ShapeNode
  | _, .str field => .ok (.field field)
  | key, .obj members =>
    match Keyed.get? members "$raw" with
    | some (.str expression) =>
      if members.length = 1 then .ok (.raw expression) else .error (.malformedRaw key)
    | some _ => .error (.malformedRaw key)
    | none => (fun entries => .nested (Keyed.putAll [] entries)) <$> entriesOfMembers members
  | key, j => .error (.notShape key j)

/-- The entries of the members of an object. -/
def entriesOfMembers : List (String × Json) → Except StatementFault (List (String × ShapeNode))
  | [] => .ok []
  | (key, j) :: rest => do
    let node ← nodeOfJson key j
    return (key, node) :: (← entriesOfMembers rest)

end

/-- The shape of a JSON value. -/
def ofJson : Json → Except StatementFault Shape
  | .obj members => Keyed.putAll [] <$> entriesOfMembers members
  | j => .error (.notObject .shape j)

end Shape

end Tabula
