import Tabula.Fragment
import Tabula.Result.Mapper
import Tabula.Plan.Predicate
import Tabula.Text.Quoted
import Tabula.Statement.Clauses

/-!
# Compiled statements

A compiled statement is its SQL with parameters, and the mapper for the rows that the store
answers. This module also holds the clauses that statements of several kinds end with.
-/

namespace Tabula

/-- A statement ready to run. -/
structure Compiled where
  fragment : Fragment
  mapper : Mapper

namespace Compiled

def sql (c : Compiled) : String :=
  c.fragment.sql

def params (c : Compiled) : List Value :=
  c.fragment.params

end Compiled

/-- Adds a condition behind its keyword; a predicate that says nothing adds nothing. -/
def Fragment.appendCondition (f : Fragment) (keyword : String) (p : Option Predicate) :
    Fragment :=
  match p with
  | none => f
  | some p =>
    let condition := p.render
    if condition.isEmpty then f else (f.appendRaw keyword).append condition

namespace Returning

/-- The columns that come back, of which there has to be one. -/
def plan (table : Table) (r : Returning) : Except Error (List Column) :=
  if r.columns.isEmpty then .error (.invalidStatement (.emptyReturning table.key))
  else r.columns.mapM table.column

/-- Returned columns go by their keys. -/
def render (columns : List Column) : String :=
  "returning " ++ ", ".intercalate (columns.map fun c => s!"{c.name} as {Text.identifier c.key}")

end Returning

/-- Adds the clause of returned columns, if there is one. -/
def Fragment.appendReturning (f : Fragment) (returning : Option (List Column)) : Fragment :=
  match returning with
  | none => f
  | some columns => f.appendRaw (Returning.render columns)

end Tabula
