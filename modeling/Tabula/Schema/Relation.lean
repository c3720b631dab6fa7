import Tabula.Table.Basic

/-!
# Relations

A relation leads from the rows of a table to rows of another. A relation to one row is declared
with the columns it is joined on; a relation to many is declared without, and gets its columns
from the relation to one that leads back. Tables go by their names in the store, columns by their
keys.
-/

namespace Tabula

inductive RelationKind where
  | one
  | many
deriving DecidableEq

/-- What a declaration says of the columns of a relation. -/
inductive Link where
  /-- The columns of the declaring table that equal columns of the other. -/
  | one (fields references : List String)
  | many
deriving DecidableEq

/-- A declared relation. -/
structure RelationDecl where
  /-- The table that the relation leads to. -/
  referenced : String
  link : Link
  /-- Tells relations between the same tables apart. -/
  identifier : Option String := none
deriving DecidableEq

/-- The relations declared for a table. -/
structure RelationGroup where
  table : String
  relations : Keyed RelationDecl
  names_nodup : relations.keys.Nodup

namespace RelationGroup

/-- No relations. -/
def start (table : String) : RelationGroup :=
  ⟨table, [], List.nodup_nil⟩

/-- Declares a relation. One of the same name gives way to it and loses its place. -/
def declare (g : RelationGroup) (name : String) (relation : RelationDecl) : RelationGroup :=
  ⟨g.table, g.relations.moveToEnd name relation,
    Keyed.nodup_keys_moveToEnd g.names_nodup name relation⟩

/-- Relations of a table, declared one after another. -/
def ofList (table : String) (relations : List (String × RelationDecl)) : RelationGroup :=
  relations.foldl (fun g r => g.declare r.1 r.2) (start table)

end RelationGroup

/-- A relation with the columns it is joined on. -/
structure Relation where
  kind : RelationKind
  source : String
  referenced : String
  sourceFields : List String
  referencedFields : List String
  identifier : Option String
deriving DecidableEq

/-- The relations of a table. -/
structure Relations where
  table : String
  fields : Keyed Relation
deriving DecidableEq

end Tabula
