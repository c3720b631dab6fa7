import Tabula.Statement.Filter
import Tabula.Statement.Shape
import Tabula.Statement.Inclusion
import Tabula.Statement.Clauses

/-!
# Descriptors

Every clause of a statement can be given as what it is or as JSON. `Given.read` makes the two
one.
-/

namespace Tabula

/-- Clauses with a JSON form. -/
class Descriptor (α : Type) where
  ofJson : Json → Except StatementFault α

instance : Descriptor Filter := ⟨Filter.ofJson⟩

instance : Descriptor Shape := ⟨Shape.ofJson⟩

instance : Descriptor Inclusion := ⟨Inclusion.ofJson⟩

instance : Descriptor OrderBy := ⟨OrderBy.ofJson⟩

instance : Descriptor GroupBy := ⟨GroupBy.ofJson⟩

instance : Descriptor Returning := ⟨Returning.ofJson⟩

instance : Descriptor Values := ⟨Values.ofJson⟩

instance : Descriptor Sets := ⟨Sets.ofJson⟩

/-- A clause as a caller gives it. -/
inductive Given (α : Type) where
  | typed (a : α)
  | json (j : Json)

/-- The clause that is given. -/
def Given.read {α : Type} [Descriptor α] : Given α → Except StatementFault α
  | typed a => .ok a
  | json j => Descriptor.ofJson j

end Tabula
