import Tabula.Statement.Descriptor
import Tabula.Statement.Join

/-!
# Statements

What a caller asks for, clause by clause, before it meets a schema.
-/

namespace Tabula

/-- The clauses of a select. -/
structure Select where
  joins : List Join := []
  shape : Option Shape := none
  inclusion : Option Inclusion := none
  filter : Option Filter := none
  groupBy : Option GroupBy := none
  having : Option Filter := none
  orderBy : Option OrderBy := none
  limit : Option Int64 := none
  offset : Option Int64 := none

/-- The clauses of an insert. -/
structure Insert where
  values : Option Values := none
  returning : Option Returning := none

/-- The clauses of an update. -/
structure Update where
  sets : Option Sets := none
  filter : Option Filter := none
  returning : Option Returning := none

/-- The clauses of a delete. -/
structure Delete where
  filter : Option Filter := none
  returning : Option Returning := none

end Tabula
