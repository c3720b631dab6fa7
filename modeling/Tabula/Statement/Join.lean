import Tabula.Statement.Operator

/-!
# Joins

A join adds a table of the schema under an alias. Its condition compares a column of that table
with a field that the statement knows before the join.
-/

namespace Tabula

inductive JoinKind where
  | inner
  | left
deriving DecidableEq

/-- `<alias>.<column> <operator> <field>` -/
structure JoinCondition where
  column : String
  operator : Operator
  field : String
deriving DecidableEq

/-- A join of a table, by its key, under an alias. -/
structure Join where
  kind : JoinKind
  table : String
  /-- The alias. -/
  label : String
  condition : Option JoinCondition
deriving DecidableEq

namespace JoinKind

def sql : JoinKind → String
  | inner => "join"
  | left => "left join"

end JoinKind

end Tabula
