import Tabula.Schema.Relation

/-!
# Schemas

A schema holds tables under keys and the relations between them. Queries name tables by their
keys, relations by their names in the store. `Schema.Assemble` makes a schema from declarations.
-/

namespace Tabula

/-- What a schema is declared of. -/
inductive Declaration where
  | table (t : Table)
  | relations (g : RelationGroup)

/-- The places of a table and of its relations in a schema. -/
structure SchemaEntry where
  table : Nat
  relations : Option Nat
deriving DecidableEq

/-- Tables and their relations. -/
structure Schema where
  declarations : Keyed Declaration
  tables : List Table
  relations : List Relations

namespace Schema

/-- The table of a name in the store. -/
def tableNamed? (s : Schema) (name : String) : Option Table :=
  s.tables.find? fun t => t.name == name

/-- The table of a key. -/
def table? (s : Schema) (key : String) : Option Table :=
  s.tables.find? fun t => t.key == key

/-- The table of a name in the store, or the failure to find it. -/
def tableNamed (s : Schema) (name : String) : Except Error Table :=
  match s.tableNamed? name with
  | some t => .ok t
  | none => .error (.tableNotFound name)

/-- The table of a key, or the failure to find it. -/
def table (s : Schema) (key : String) : Except Error Table :=
  match s.table? key with
  | some t => .ok t
  | none => .error (.tableNotFound key)

/-- The places of the table of a key and of its relations. -/
def entry? (s : Schema) (key : String) : Option SchemaEntry := do
  let index ← s.tables.findIdx? fun t => t.key == key
  let table ← s.tables[index]?
  return ⟨index, s.relations.findIdx? fun r => r.table == table.name⟩

/-- The relations of the table of a key. -/
def relationsOf? (s : Schema) (key : String) : Option Relations := do
  let table ← s.table? key
  s.relations.find? fun r => r.table == table.name

/-- A relation of the table of a key, or the failure to find it. -/
def relation (s : Schema) (key name : String) : Except Error Relation :=
  match (s.relationsOf? key).bind fun r => r.fields.get? name with
  | some r => .ok r
  | none => .error (.relationNotFound key name)

/-- The statements that create the tables, in the order of their declarations. -/
def createStatements (s : Schema) : List String :=
  s.tables.map Table.createStatement

end Schema

/-- Whether a relation may lead to no row. One to many never does, it leads to a list; one to one
row does unless each of its columns is never null and itself refers to the other table. -/
def Relation.isOptional (r : Relation) (s : Schema) : Bool :=
  match r.kind with
  | .many => false
  | .one =>
    match s.tableNamed? r.source with
    | none => true
    | some source =>
      !r.sourceFields.all fun field =>
        (source.column? field).any fun c => c.notNull && c.targets r.referenced

end Tabula
