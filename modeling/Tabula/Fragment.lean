import Tabula.Value.Basic

/-!
# SQL fragments

A fragment is SQL text with placeholders and the values bound to them. It is kept as a list of
pieces, each either plain text or one placeholder with its value, so text and parameters are two
readings of one list and cannot fall out of step: the parameters stand in the order of their
placeholders.
-/

namespace Tabula

/-- A piece of SQL: plain text, or a placeholder with the value bound to it. -/
inductive Piece where
  | text (s : String)
  | bind (v : Value)
deriving DecidableEq

namespace Piece

/-- The SQL of a piece; a placeholder is a question mark. -/
def sql : Piece → String
  | text s => s
  | bind _ => "?"

/-- The value of a placeholder. -/
def value? : Piece → Option Value
  | text _ => none
  | bind v => some v

end Piece

/-- SQL with the values bound to its placeholders. -/
structure Fragment where
  pieces : List Piece
deriving DecidableEq

namespace Fragment

/-- The SQL text. -/
def sql (f : Fragment) : String :=
  String.join (f.pieces.map Piece.sql)

/-- The bound values, in the order of their placeholders. -/
def params (f : Fragment) : List Value :=
  f.pieces.filterMap Piece.value?

/-- Whether the text is empty. -/
def isEmpty (f : Fragment) : Bool :=
  f.pieces.all fun p => p.sql.isEmpty

/-! ## Building -/

def empty : Fragment :=
  ⟨[]⟩

/-- Text without placeholders. -/
def raw (s : String) : Fragment :=
  ⟨[.text s]⟩

/-- One placeholder. -/
def parameter (v : Value) : Fragment :=
  ⟨[.bind v]⟩

/-- The second fragment directly behind the first. -/
def push (f g : Fragment) : Fragment :=
  ⟨f.pieces ++ g.pieces⟩

/-- Text directly behind a fragment. -/
def pushRaw (f : Fragment) (s : String) : Fragment :=
  f.push (raw s)

/-- A placeholder directly behind a fragment. -/
def pushParam (f : Fragment) (v : Value) : Fragment :=
  f.push (parameter v)

/-- The second fragment behind the first with a blank between them; an empty one adds
nothing. -/
def append (f g : Fragment) : Fragment :=
  if g.isEmpty then f
  else if f.isEmpty then f.push g
  else (f.pushRaw " ").push g

/-- Text behind a fragment with a blank between them. -/
def appendRaw (f : Fragment) (s : String) : Fragment :=
  f.append (raw s)

/-- Fragments one behind another with `separator` between them. -/
def join (separator : String) : List Fragment → Fragment
  | [] => empty
  | [f] => f
  | f :: g :: rest => (f.pushRaw separator).push (join separator (g :: rest))

/-- The fragment in parentheses. -/
def parens (f : Fragment) : Fragment :=
  ((raw "(").push f).pushRaw ")"

/-- A list of placeholders in parentheses, one for each value. -/
def parameters (vs : List Value) : Fragment :=
  (join ", " (vs.map parameter)).parens

end Fragment

end Tabula
