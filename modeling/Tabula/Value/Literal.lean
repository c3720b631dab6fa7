import Tabula.Value.Basic
import Tabula.Text.Quoted
import Tabula.Text.Utf8

/-!
# Storage values as text

`Value.literal` is the SQL literal that stands for a default in a table definition;
`Value.display` is the bare content.
-/

namespace Tabula.Value

/-- The value as an SQL literal. -/
def literal : Value → String
  | null => "null"
  | integer n => toString n.toInt
  | real x => x.plain
  | text s => Text.stringLiteral s
  | blob bytes => "X'" ++ Hex.upper bytes ++ "'"

/-- The content alone; the text of a blob replaces what is not UTF-8. -/
def display : Value → String
  | null => ""
  | integer n => toString n.toInt
  | real x => x.plain
  | text s => s
  | blob bytes => Utf8.decode bytes

end Tabula.Value
