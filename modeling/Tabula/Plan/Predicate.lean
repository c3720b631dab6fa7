import Tabula.Plan.Fields
import Tabula.Statement.Filter
import Tabula.Fragment

/-!
# Predicates

A predicate is a filter whose leaves have found their columns and have their operands in stored
form. `Predicate.ofFilter` resolves the leaves from left to right, so the leftmost one at fault
decides the error; `Predicate.render` cannot fail. A group inside of a group stands in parentheses
if more than one of its children says anything.
-/

namespace Tabula

/-- What a leaf asks of a column. -/
inductive Test where
  | isNull
  | isNotNull
  | compare (operator : Operator) (operand : Value)
  | among (operator : Operator) (operands : List Value)
deriving DecidableEq

/-- A test of a column. -/
structure Condition where
  field : Field
  test : Test
deriving DecidableEq

namespace Condition

/-- The condition of a leaf. Equality with null asks for null; every other operand is encoded by
the column, that of a set operator element by element. -/
def ofLeaf (fields : Fields) (key : String) (operator : Operator) (operand : Json) :
    Except Error Condition := do
  let field ← fields.resolve key
  match operator, operand with
  | .eq, .null => return ⟨field, .isNull⟩
  | .ne, .null => return ⟨field, .isNotNull⟩
  | operator, operand =>
    if operator.isSet then
      match operand with
      | .arr items => return ⟨field, .among operator (← items.mapM field.column.encode)⟩
      | operand => throw (.invalidStatement (.needsArray key operator operand))
    else return ⟨field, .compare operator (← field.column.encode operand)⟩

/-- The SQL of a condition. -/
def render (c : Condition) : Fragment :=
  match c.test with
  | .isNull => .raw s!"{c.field.sql} is null"
  | .isNotNull => .raw s!"{c.field.sql} is not null"
  | .compare operator operand =>
    (Fragment.raw s!"{c.field.sql} {operator.sql}").append (.parameter operand)
  | .among operator operands =>
    (Fragment.raw s!"{c.field.sql} {operator.sql}").append (.parameters operands)

end Condition

/-- A filter with resolved leaves. -/
inductive Predicate where
  | group (connective : Connective) (children : List Predicate)
  | test (condition : Condition)

def Connective.separator : Connective → String
  | and => " and "
  | or => " or "

namespace Predicate

mutual

/-- The predicate of a filter. -/
def ofFilter (fields : Fields) : Filter → Except Error Predicate
  | .group c children => .group c <$> ofFilters fields children
  | .compare key operator operand => .test <$> Condition.ofLeaf fields key operator operand

def ofFilters (fields : Fields) : List Filter → Except Error (List Predicate)
  | [] => .ok []
  | f :: rest => do
    let first ← ofFilter fields f
    return first :: (← ofFilters fields rest)

end

mutual

/-- The SQL of a predicate, given whether it stands inside of a group. -/
def renderWithin : Bool → Predicate → Fragment
  | nested, .group c children =>
    let parts := renderParts children
    let joined := Fragment.join c.separator parts
    if nested && 1 < parts.length then joined.parens else joined
  | _, .test condition => condition.render

/-- The SQL of the children that say anything. -/
def renderParts : List Predicate → List Fragment
  | [] => []
  | p :: rest =>
    let part := renderWithin true p
    if part.isEmpty then renderParts rest else part :: renderParts rest

end

/-- The SQL of a predicate. -/
def render (p : Predicate) : Fragment :=
  renderWithin false p

end Predicate

end Tabula
