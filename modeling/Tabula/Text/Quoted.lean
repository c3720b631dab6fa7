/-!
# Quoted text

A quoted text stands between two marks, and a mark inside it is written twice. SQL quotes names
with `"` and string literals with `'`. `unquote` reads one quoted text back from the front of a
longer one.
-/

namespace Tabula.Text

/-- Writes every `mark` twice. -/
def doubled (mark : Char) (cs : List Char) : List Char :=
  cs.flatMap fun c => if c = mark then [mark, mark] else [c]

/-- The text between two marks, its own marks doubled. -/
def quoted (mark : Char) (s : String) : String :=
  String.ofList (mark :: (doubled mark s.toList ++ [mark]))

/-- An SQL identifier. -/
def identifier (name : String) : String :=
  quoted '"' name

/-- An SQL string literal. -/
def stringLiteral (s : String) : String :=
  quoted '\'' s

/-- The inside of a quoted text up to its closing mark, and what follows that mark. -/
def unquoteInside (mark : Char) : List Char → Option (List Char × List Char)
  | [] => none
  | [c] => if c = mark then some ([], []) else none
  | c :: d :: rest =>
    if c = mark then
      if d = mark then (unquoteInside mark rest).map fun r => (mark :: r.1, r.2)
      else some ([], d :: rest)
    else (unquoteInside mark (d :: rest)).map fun r => (c :: r.1, r.2)

/-- Reads one quoted text: what it stands for, and the rest. -/
def unquote (mark : Char) : List Char → Option (List Char × List Char)
  | [] => none
  | c :: rest => if c = mark then unquoteInside mark rest else none

end Tabula.Text
