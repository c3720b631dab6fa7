import Tabula.Error

/-!
# Filters

A filter is a tree: leaves compare a field with an operand, groups join filters by `and` or `or`.
In JSON an object is the conjunction of its members. The members `$and` and `$or` hold a group, an
array of filters or an object each of whose members is one; any other member is a field with the
operators and operands it is compared by.
-/

namespace Tabula

/-- How a group joins its filters. -/
inductive Connective where
  | and
  | or
deriving DecidableEq

/-- The connective of a member that holds a group. -/
def Connective.ofKey? : String → Option Connective
  | "$and" => some and
  | "$or" => some or
  | _ => none

/-- A filter. A group without leaves filters nothing. -/
inductive Filter where
  | group (connective : Connective) (children : List Filter)
  | compare (field : String) (operator : Operator) (operand : Json)

namespace Filter

/-- The filter that filters nothing. -/
def empty : Filter :=
  .group .and []

/-- Joins a filter with another, as one more child if it is a group of that connective. -/
def combine (connective : Connective) (a b : Filter) : Filter :=
  match a with
  | .group c children =>
    if c = connective then .group c (children ++ [b]) else .group connective [a, b]
  | .compare .. => .group connective [a, b]

def and (a b : Filter) : Filter :=
  a.combine .and b

def or (a b : Filter) : Filter :=
  a.combine .or b

mutual

/-- Whether a filter has no leaves. -/
def isEmpty : Filter → Bool
  | .group _ children => allEmpty children
  | .compare .. => false

def allEmpty : List Filter → Bool
  | [] => true
  | f :: rest => f.isEmpty && allEmpty rest

end

/-! ## Reading -/

/-- One filter of several: a single one stands for itself. -/
def conjunction : List Filter → Filter
  | [f] => f
  | fs => .group .and fs

/-- The comparisons of one field. A set operator needs an array. -/
def comparisons (field : String) (operators : List (String × Json)) :
    Except StatementFault (List Filter) :=
  operators.mapM fun (key, operand) =>
    match Operator.ofKey? key with
    | none => .error (.unknownOperator key)
    | some operator =>
      if operator.isSet && !operand.isArray then
        .error (.needsArray field operator operand)
      else .ok (.compare field operator operand)

mutual

/-- The filter of a JSON value. -/
def ofJson : Json → Except StatementFault Filter
  | .obj members => conjunction <$> ofMembers members
  | j => .error (.notObject .filter j)

/-- The filters that the members of an object contribute to its conjunction. -/
def ofMembers : List (String × Json) → Except StatementFault (List Filter)
  | [] => .ok []
  | (key, j) :: rest => do
    let first ← ofMember key j
    return first ++ (← ofMembers rest)

/-- The filters that one member contributes. -/
def ofMember : String → Json → Except StatementFault (List Filter)
  | key, .arr items =>
    match Connective.ofKey? key with
    | some c => (fun children => [.group c children]) <$> ofItems items
    | none => .error (.notObject .filter (.arr items))
  | key, .obj members =>
    match Connective.ofKey? key with
    | some c => (fun children => [.group c children]) <$> ofEntries members
    | none => comparisons key members
  | key, j =>
    match Connective.ofKey? key with
    | some _ => .error (.notGroup j)
    | none => .error (.notObject .filter j)

/-- The children of a group given as an array. -/
def ofItems : List Json → Except StatementFault (List Filter)
  | [] => .ok []
  | j :: rest => do
    let first ← ofJson j
    return first :: (← ofItems rest)

/-- The children of a group given as an object, each member a filter of its own. -/
def ofEntries : List (String × Json) → Except StatementFault (List Filter)
  | [] => .ok []
  | (key, j) :: rest => do
    let first ← ofMember key j
    return conjunction first :: (← ofEntries rest)

end

end Filter

end Tabula
