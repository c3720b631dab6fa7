import Tabula.Error

/-!
# The smaller clauses

Orders, groupings and returned columns are lists of keys; rows to insert and values to set are
JSON objects as they are. Each has a JSON form, which `Statement.Descriptor` reads.
-/

namespace Tabula

/-! ## Keys -/

/-- The direction of an order. -/
inductive Direction where
  | asc
  | desc
deriving DecidableEq

def Direction.sql : Direction → String
  | asc => "asc"
  | desc => "desc"

/-- The direction of a word, in either case. -/
def Direction.ofWord? (word : String) : Option Direction :=
  match String.ofList (word.toList.map Char.toLower) with
  | "asc" => some asc
  | "desc" => some desc
  | _ => none

/-- The keys that order a result, the most important first. -/
structure OrderBy where
  keys : List (String × Direction)
deriving DecidableEq

/-- The keys that group a result. -/
structure GroupBy where
  keys : List String
deriving DecidableEq

/-- The columns, by their keys, that come back from rows written. -/
structure Returning where
  columns : List String
deriving DecidableEq

namespace OrderBy

def empty : OrderBy :=
  ⟨[]⟩

def asc (o : OrderBy) (key : String) : OrderBy :=
  ⟨o.keys ++ [(key, .asc)]⟩

def desc (o : OrderBy) (key : String) : OrderBy :=
  ⟨o.keys ++ [(key, .desc)]⟩

/-- An object of directions. -/
def ofJson : Json → Except StatementFault OrderBy
  | .obj members => OrderBy.mk <$> members.mapM fun
    | (key, .str word) =>
      match Direction.ofWord? word with
      | some direction => .ok (key, direction)
      | none => .error (.unknownDirection key)
    | (key, _) => .error (.unknownDirection key)
  | j => .error (.notObject .orderBy j)

end OrderBy

/-- The keys that an object marks as true; false and null leave a key out. -/
def markedKeys (clause : Clause) : Json → Except StatementFault (List String)
  | .obj members => marked members
  | j => .error (.notObject clause j)
where
  marked : List (String × Json) → Except StatementFault (List String)
    | [] => .ok []
    | (key, .bool true) :: rest => (key :: ·) <$> marked rest
    | (_, .bool false) :: rest => marked rest
    | (_, .null) :: rest => marked rest
    | (key, j) :: _ => .error (.notBoolean clause key j)

def GroupBy.ofJson (j : Json) : Except StatementFault GroupBy :=
  GroupBy.mk <$> markedKeys .groupBy j

def Returning.ofJson (j : Json) : Except StatementFault Returning :=
  Returning.mk <$> markedKeys .returning j

/-! ## Rows -/

/-- What an insert writes: one row, or several, which decides the form of its result. -/
inductive Values where
  | one (row : Json.Object)
  | many (rows : List Json.Object)

namespace Values

def rows : Values → List Json.Object
  | one row => [row]
  | many rows => rows

def isMany : Values → Bool
  | one _ => false
  | many _ => true

/-- One object, or an array of objects. -/
def ofJson : Json → Except StatementFault Values
  | .obj members => .ok (.one (.ofMembers members))
  | .arr items => Values.many <$> items.mapM fun
    | .obj members => .ok (.ofMembers members)
    | j => .error (.notObject .values j)
  | j => .error (.notRows j)

end Values

/-- What an update writes: columns by their keys. -/
structure Sets where
  object : Json.Object

namespace Sets

def empty : Sets :=
  ⟨.empty⟩

/-- Sets one column. -/
def set (s : Sets) (key : String) (value : Json) : Sets :=
  ⟨s.object.put key value⟩

def ofJson : Json → Except StatementFault Sets
  | .obj members => .ok ⟨.ofMembers members⟩
  | j => .error (.notObject .sets j)

end Sets

end Tabula
