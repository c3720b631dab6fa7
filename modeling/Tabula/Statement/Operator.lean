/-!
# Comparison operators

The operators of filters and join conditions, their spellings in JSON and in SQL.
-/

namespace Tabula

/-- A comparison of a field with an operand. -/
inductive Operator where
  | eq
  | ne
  | lt
  | gt
  | le
  | ge
  | like
  | isIn
  | notIn
deriving DecidableEq

namespace Operator

/-- The SQL spelling. -/
def sql : Operator → String
  | eq => "="
  | ne => "!="
  | lt => "<"
  | gt => ">"
  | le => "<="
  | ge => ">="
  | like => "like"
  | isIn => "in"
  | notIn => "not in"

/-- The operator of a JSON spelling; most have a symbol and a word. -/
def ofKey? : String → Option Operator
  | "==" | "=" | "$eq" => some eq
  | "!=" | "<>" | "$ne" => some ne
  | "<" | "$lt" => some lt
  | ">" | "$gt" => some gt
  | "<=" | "$lte" => some le
  | ">=" | "$gte" => some ge
  | "$like" => some like
  | "$in" => some isIn
  | "$not in" | "$nin" => some notIn
  | _ => none

/-- The operators whose operand is an array, one placeholder for each element. -/
def isSet : Operator → Bool
  | isIn | notIn => true
  | _ => false

end Operator

end Tabula
