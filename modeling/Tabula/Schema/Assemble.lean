import Tabula.Schema.Basic

/-!
# Assembling schemas

`Schema.assemble` takes declarations under keys in three passes. The first collects tables and
relations and refuses what is declared twice. The second checks that relations name tables and
columns that there are. The third gives every relation to many the columns of the one relation
that leads back. `Schema.merge` lays declarations over those of a schema and assembles anew.
-/

namespace Tabula

namespace Schema

/-- What the first pass has collected. -/
structure Collected where
  keys : List String
  tables : List Table
  groups : List RelationGroup

namespace Collected

/-- Takes one declaration. -/
def add (c : Collected) (key : String) : Declaration → Except SchemaFault Collected
  | .table t =>
    if key ∈ c.keys then .error (.keyTwice key)
    else if c.tables.any (fun u => u.name == t.name) then .error (.tableTwice t.name)
    else .ok ⟨key :: c.keys, c.tables ++ [t.withKey key], c.groups⟩
  | .relations g =>
    if key ∈ c.keys then .error (.keyTwice key)
    else if c.groups.any (fun h => h.table == g.table) then .error (.relationsTwice g.table)
    else .ok ⟨key :: c.keys, c.tables, c.groups ++ [g]⟩

/-- The table of a name in the store. -/
def tableNamed? (c : Collected) (name : String) : Option Table :=
  c.tables.find? fun t => t.name == name

/-- The columns of a relation to one have to be there, in pairs, in both tables. -/
def checkColumns (name : String) (source referenced : Table) (fields references : List String) :
    Except SchemaFault Unit := do
  if fields.isEmpty || fields.length != references.length then
    throw (.fieldCount name source.key fields.length references.length)
  let known := fun (table : Table) (field : String) =>
    if (table.column? field).isSome then .ok ()
    else .error (SchemaFault.unknownColumn name source.key table.key field)
  fields.forM (known source)
  references.forM (known referenced)

/-- The table that a relation leads to has to be there. -/
def checkRelation (c : Collected) (source : Table) (name : String) (r : RelationDecl) :
    Except SchemaFault Unit :=
  match c.tableNamed? r.referenced with
  | none => .error (.unknownReferenced name source.key r.referenced)
  | some referenced =>
    match r.link with
    | .many => .ok ()
    | .one fields references => checkColumns name source referenced fields references

/-- The table that relations are declared for has to be there. -/
def checkGroup (c : Collected) (g : RelationGroup) : Except SchemaFault Unit :=
  match c.tableNamed? g.table with
  | none => .error (.unknownSource g.table)
  | some source => g.relations.forM fun r => c.checkRelation source r.1 r.2

/-- The columns, turned around, of the relations to one that lead from `referenced` back to
`source`. -/
def back (c : Collected) (source referenced : String) (identifier : Option String) :
    List (List String × List String) :=
  c.groups.flatMap fun g => g.relations.filterMap fun r =>
    match r.2.link with
    | .many => none
    | .one fields references =>
      if g.table = referenced ∧ r.2.referenced = source
          ∧ (identifier = none ∨ r.2.identifier = identifier) then
        some (references, fields)
      else none

/-- A declared relation with the columns it is joined on. Exactly one relation leads back from
where a relation to many leads. -/
def resolve (c : Collected) (source : Table) (name : String) (r : RelationDecl) :
    Except Error Relation :=
  match r.link with
  | .one fields references =>
    .ok ⟨.one, source.name, r.referenced, fields, references, r.identifier⟩
  | .many =>
    match c.back source.name r.referenced r.identifier with
    | [(fields, references)] =>
      .ok ⟨.many, source.name, r.referenced, fields, references, r.identifier⟩
    | [] => .error (.relationCorrupted source.key name)
    | candidates => .error (.ambiguousRelation source.key name candidates.length)

/-- The relations of a group with the columns they are joined on. -/
def resolveGroup (c : Collected) (g : RelationGroup) : Except Error Relations :=
  match c.tableNamed? g.table with
  | none => .error (.tableNotFound g.table)
  | some source => do
    let fields ← g.relations.mapM fun r => do
      return (r.1, ← c.resolve source r.1 r.2)
    return ⟨g.table, fields⟩

end Collected

/-- The schema of declarations. -/
def assemble (declarations : Keyed Declaration) : Except Error Schema := do
  let collected ← (declarations.foldlM (fun (c : Collected) d => c.add d.1 d.2)
    ⟨[], [], []⟩).mapError .schemaCorrupted
  (collected.groups.forM collected.checkGroup).mapError .schemaCorrupted
  let relations ← collected.groups.mapM collected.resolveGroup
  return ⟨declarations, collected.tables, relations⟩

/-- The schema whose declarations are those of `s` with others laid over them: one under a key of
`s` takes the place of the old one, a new key goes to the end. -/
def merge (s : Schema) (declarations : List (String × Declaration)) : Except Error Schema :=
  assemble (s.declarations.putAll declarations)

end Schema

end Tabula
