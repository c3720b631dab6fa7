import Tabula.Value.Basic

/-!
# Rows

What the store answers: named values in order. A name may come twice; looking it up finds the
first.
-/

namespace Tabula

/-- A row of named values. -/
structure Row where
  cells : Keyed Value
deriving DecidableEq

namespace Row

/-- The names, in order. -/
def columns (r : Row) : List String :=
  r.cells.keys

/-- The values, in order. -/
def values (r : Row) : List Value :=
  r.cells.map Prod.snd

def size (r : Row) : Nat :=
  r.cells.length

def isEmpty (r : Row) : Bool :=
  r.cells.isEmpty

/-- The value of the first column of a name. -/
def get? (r : Row) (column : String) : Option Value :=
  r.cells.get? column

/-- The row of names and values that stand in the same order. -/
def ofColumns (columns : List String) (values : List Value) : Row :=
  ⟨columns.zip values⟩

/-- Whether two rows have the same names and values that are equal as values are compared. -/
def same (a b : Row) : Bool :=
  a.columns == b.columns && (a.values.zip b.values).all fun v => v.1.same v.2

end Row

end Tabula
