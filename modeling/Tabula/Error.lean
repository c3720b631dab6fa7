import Tabula.Json.Writer
import Tabula.Statement.Operator

/-!
# Errors

An error is the cause of a failure, with what its text names. Large kinds have a type of causes of
their own: `SchemaFault` for declarations that contradict each other, `ConfigFault` for misused
builders and options, `StatementFault` for malformed descriptors and `MappingFault` for values
that do not fit their column. `Error.message` is the text.
-/

namespace Tabula

/-- Why declarations do not make a schema. -/
inductive SchemaFault where
  | keyTwice (key : String)
  | tableTwice (table : String)
  | relationsTwice (table : String)
  | unknownSource (table : String)
  | unknownReferenced (relation table referenced : String)
  | fieldCount (relation table : String) (fields references : Nat)
  | unknownColumn (relation table owner column : String)
deriving DecidableEq

/-- The table constraints that list columns. -/
inductive ConstraintKind where
  | primaryKey
  | foreignKey
deriving DecidableEq

/-- Why a column, a table or an option cannot be declared. -/
inductive ConfigFault where
  | emptyColumnName (key : String)
  | autoincrementWithoutPrimaryKey (column : String)
  | columnTwice (key table : String)
  | emptyConstraint (kind : ConstraintKind) (table : String)
  | undeclaredColumn (kind : ConstraintKind) (key table : String)
  | foreignKeyLength (table : String) (columns references : Nat)
  | noColumns (table : String)
  | unknownJournalMode (mode : String)
  | unreadable
deriving DecidableEq

/-- The descriptors that callers give as JSON. -/
inductive Clause where
  | filter
  | shape
  | inclusion
  | orderBy
  | groupBy
  | returning
  | values
  | sets
deriving DecidableEq

/-- Why a statement cannot be read or compiled. -/
inductive StatementFault where
  | notObject (clause : Clause) (got : Json)
  | notBoolean (clause : Clause) (key : String) (got : Json)
  | unknownOperator (key : String)
  | needsArray (field : String) (operator : Operator) (got : Json)
  | notGroup (got : Json)
  | unknownDirection (key : String)
  | notRows (got : Json)
  | limitNotInteger (got : Json.Number)
  | notInclusion (key : String) (got : Json)
  | malformedRaw (key : String)
  | notShape (key : String) (got : Json)
  | joinWithoutCondition (label : String)
  | joinOperator (label : String) (operator : Operator)
  | aliasInUse (label : String)
  | emptyProjection (table : String)
  | mixedRows (table : String)
  | keySetDiffers (table : String) (row : Nat)
  | emptyReturning (table : String)
deriving DecidableEq

/-- Why a text is no instant. -/
inductive DateFault where
  | outOfRange
  | invalid
  | tooShort
  | tooLong
deriving DecidableEq

/-- Why a value does not fit where it is read or stored. -/
inductive MappingFault where
  | notByte (got : Json)
  | oddHex (text : String)
  | invalidHex (text : String)
  | outOfDateRange (millis : Int)
  | invalidDate (text : String) (fault : DateFault)
  | notMillis (got : Json.Number)
  | notDate (got : Json)
  | notEmbedded (got : Json)
  | missingColumn (column : String)
  | unexpected (got : Json)
deriving DecidableEq

/-- The cause of a failure. -/
inductive Error where
  | schemaCorrupted (fault : SchemaFault)
  | relationCorrupted (table relation : String)
  | ambiguousRelation (table relation : String) (candidates : Nat)
  | configuration (fault : ConfigFault)
  | tableNotFound (table : String)
  | columnNotFound (column : String)
  | relationNotFound (table relation : String)
  | missingValues (table : String)
  | missingSets (table : String)
  | invalidStatement (fault : StatementFault)
  | mapping (fault : MappingFault)
  | transaction (cause : String)
  | rollback
  | malformedPayload
  | other (cause : String)
deriving DecidableEq

/-! ## Texts -/

def SchemaFault.message : SchemaFault → String
  | keyTwice key => s!"\"{key}\" is declared twice"
  | tableTwice table => s!"table \"{table}\" is declared twice"
  | relationsTwice table => s!"relations for table \"{table}\" are declared twice"
  | unknownSource table => s!"relations declared for unknown table \"{table}\""
  | unknownReferenced relation table referenced =>
    s!"relation \"{relation}\" of \"{table}\" references unknown table \"{referenced}\""
  | fieldCount relation table fields references =>
    s!"relation \"{relation}\" of \"{table}\" pairs {fields} fields with {references} references"
  | unknownColumn relation table owner column =>
    s!"relation \"{relation}\" of \"{table}\" uses unknown column \"{owner}.{column}\""

def ConstraintKind.name : ConstraintKind → String
  | primaryKey => "primary key"
  | foreignKey => "foreign key"

def ConfigFault.message : ConfigFault → String
  | emptyColumnName key => s!"column \"{key}\" has an empty name"
  | autoincrementWithoutPrimaryKey column =>
    s!"column \"{column}\" uses autoincrement without primary key"
  | columnTwice key table => s!"column \"{key}\" declared twice in \"{table}\""
  | emptyConstraint kind table => s!"empty {kind.name} in \"{table}\""
  | undeclaredColumn kind key table =>
    s!"{kind.name} column \"{key}\" is not declared in \"{table}\""
  | foreignKeyLength table columns references =>
    s!"foreign key in \"{table}\" pairs {columns} columns with {references}"
  | noColumns table => s!"table \"{table}\" has no columns"
  | unknownJournalMode mode => s!"unknown journal mode \"{mode}\""
  | unreadable => "the options cannot be read"

def Clause.name : Clause → String
  | filter => "where"
  | shape => "map"
  | inclusion => "include"
  | orderBy => "order by"
  | groupBy => "group by"
  | returning => "returning"
  | values => "values"
  | sets => "sets"

def StatementFault.message : StatementFault → String
  | notObject clause got => s!"{clause.name} must be an object, got {got.text}"
  | notBoolean clause key got => s!"{clause.name} \"{key}\" must be a boolean, got {got.text}"
  | unknownOperator key => s!"unknown operator \"{key}\""
  | needsArray field operator got =>
    s!"\"{field}\" {operator.sql} needs an array, got {got.text}"
  | notGroup got => s!"filter group must be an object or an array, got {got.text}"
  | unknownDirection key => s!"order by \"{key}\" must be \"asc\" or \"desc\""
  | notRows got => s!"values must be an object or an array of objects, got {got.text}"
  | limitNotInteger got => s!"include limit {got.text} is not an integer"
  | notInclusion key got => s!"include \"{key}\" must be a boolean or an object, got {got.text}"
  | malformedRaw key => s!"map \"{key}\": $raw must be the only key and a string"
  | notShape key got =>
    s!"map \"{key}\" must be a field, a $raw expression or an object, got {got.text}"
  | joinWithoutCondition label => s!"join \"{label}\" has no condition"
  | joinOperator label operator => s!"join \"{label}\" cannot use {operator.sql}"
  | aliasInUse label => s!"join alias \"{label}\" is already in use"
  | emptyProjection table => s!"select from \"{table}\" projects nothing"
  | mixedRows table => s!"insert into \"{table}\" mixes empty and non-empty rows"
  | keySetDiffers table row =>
    s!"insert into \"{table}\": row {row} does not share the key set of row 0"
  | emptyReturning table => s!"empty returning projection for \"{table}\""

def DateFault.message : DateFault → String
  | outOfRange => "input is out of range"
  | invalid => "input contains invalid characters"
  | tooShort => "premature end of input"
  | tooLong => "trailing input"

def MappingFault.message : MappingFault → String
  | notByte got => s!"{got.text} is not a byte"
  | oddHex text => s!"odd-length hex blob \"{text}\""
  | invalidHex text => s!"invalid hex blob \"{text}\""
  | outOfDateRange millis => s!"{millis} is out of the date range"
  | invalidDate text fault => s!"invalid date \"{text}\": {fault.message}"
  | notMillis got => s!"{got.text} is not an epoch millisecond"
  | notDate got => s!"{got.text} is not a date"
  | notEmbedded got => s!"expected an object in relation payload, got {got.text}"
  | missingColumn column => s!"column \"{column}\" missing from row"
  | unexpected got => s!"unexpected value {got.text}"

/-- The text that a caller sees. -/
def Error.message : Error → String
  | schemaCorrupted fault => s!"Schema corrupted: {fault.message}"
  | relationCorrupted table relation =>
    s!"Relation \"{relation}\" in table \"{table}\" is corrupted"
  | ambiguousRelation table relation candidates =>
    s!"Relation \"{relation}\" in table \"{table}\" is ambiguous: {candidates} matching relations"
  | configuration fault => s!"Configuration error: {fault.message}"
  | tableNotFound table => s!"Table \"{table}\" not found"
  | columnNotFound column => s!"Column \"{column}\" not found"
  | relationNotFound table relation =>
    s!"Relation \"{relation}\" not found for table \"{table}\""
  | missingValues table => s!"No values found for insert into \"{table}\""
  | missingSets table => s!"No sets found for update of \"{table}\""
  | invalidStatement fault => s!"Invalid statement: {fault.message}"
  | mapping fault => s!"Mapping error: {fault.message}"
  | transaction cause => s!"Transaction error: {cause}"
  | rollback => "Transaction rolled back"
  | malformedPayload => "JSON error: the payload of a relation is no JSON text"
  | other cause => s!"Database error: {cause}"

end Tabula
