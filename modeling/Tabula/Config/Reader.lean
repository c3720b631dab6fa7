import Tabula.Config.Basic
import Tabula.Keyed
import Tabula.Text.Hex

/-!
# Reading options

Options are lines `key = value`, the part of TOML that they need: bare and quoted keys, strings
with and without escapes, booleans, integers in four bases, and comments. There are no tables, so a
text that has one is refused, as is one with an unknown option, an option that comes twice or a
value that is not of its option's type.
-/

namespace Tabula.Config

/-- A value as it is written. -/
inductive Setting where
  | text (s : String)
  | bool (b : Bool)
  | integer (n : Int)
deriving DecidableEq

/-! ## Strings -/

/-- Control characters, the tab apart, stand in no string and no comment. -/
def isForbidden (c : Char) : Bool :=
  (c.toNat < 0x20 && c ≠ '\t') || c.toNat = 0x7F

/-- The character of `n` hexadecimal digits. -/
def readCodePoint (n : Nat) (cs : List Char) : Option (Char × List Char) := do
  let digits := cs.take n
  if digits.length < n then none
  else
    let value := (← digits.mapM Hex.digitValue?).foldl (fun v d => 16 * v + d) 0
    if h : value.isValidChar then return (Char.ofNatAux value h, cs.drop n) else none

/-- The character of an escape, the backslash already read. -/
def readEscape : List Char → Option (Char × List Char)
  | 'b' :: rest => some ('\x08', rest)
  | 't' :: rest => some ('\t', rest)
  | 'n' :: rest => some ('\n', rest)
  | 'f' :: rest => some ('\x0c', rest)
  | 'r' :: rest => some ('\r', rest)
  | 'e' :: rest => some ('\x1b', rest)
  | '"' :: rest => some ('"', rest)
  | '\\' :: rest => some ('\\', rest)
  | 'x' :: rest => readCodePoint 2 rest
  | 'u' :: rest => readCodePoint 4 rest
  | 'U' :: rest => readCodePoint 8 rest
  | _ => none

/-- The rest of a string in double quotes, in which backslashes escape. -/
def readBasic : Nat → List Char → Option (List Char × List Char)
  | 0, _ => none
  | _ + 1, [] => none
  | _ + 1, '"' :: rest => some ([], rest)
  | fuel + 1, '\\' :: rest => do
    let (c, rest) ← readEscape rest
    let (cs, rest) ← readBasic fuel rest
    return (c :: cs, rest)
  | fuel + 1, c :: rest =>
    if isForbidden c then none
    else do
      let (cs, rest) ← readBasic fuel rest
      return (c :: cs, rest)

/-- The rest of a string in single quotes, in which all characters stand for themselves. -/
def readLiteral : List Char → Option (List Char × List Char)
  | [] => none
  | '\'' :: rest => some ([], rest)
  | c :: rest =>
    if isForbidden c then none
    else do
      let (cs, rest) ← readLiteral rest
      return (c :: cs, rest)

/-- A string of either kind. -/
def readString? : List Char → Option (String × List Char)
  | '"' :: rest => do
    let (cs, rest) ← readBasic (rest.length + 1) rest
    return (String.ofList cs, rest)
  | '\'' :: rest => do
    let (cs, rest) ← readLiteral rest
    return (String.ofList cs, rest)
  | _ => none

/-! ## Integers -/

/-- The value of a digit below `base`. -/
def digit? (base : Nat) (c : Char) : Option Nat :=
  (Hex.digitValue? c).filter fun d => d < base

/-- The digits behind the first, each perhaps after an underscore, added to the value so far. -/
def readDigitsAfter (base : Nat) : Nat → List Char → Nat × List Char
  | value, '_' :: c :: rest =>
    match digit? base c with
    | some d => readDigitsAfter base (base * value + d) rest
    | none => (value, '_' :: c :: rest)
  | value, c :: rest =>
    match digit? base c with
    | some d => readDigitsAfter base (base * value + d) rest
    | none => (value, c :: rest)
  | value, [] => (value, [])

/-- Digits of a base, at least one. -/
def readDigits (base : Nat) : List Char → Option (Nat × List Char)
  | [] => none
  | c :: rest => (digit? base c).map fun d => readDigitsAfter base d rest

/-- A number in base ten, which starts with no zero unless it is one. -/
def readDecimal : List Char → Option (Nat × List Char)
  | '0' :: rest => some (0, rest)
  | cs => readDigits 10 cs

/-- An integer. Only numbers in base ten have a sign. -/
def readInteger : List Char → Option (Int × List Char)
  | '0' :: 'x' :: rest => do
    let (n, rest) ← readDigits 16 rest
    return (n, rest)
  | '0' :: 'o' :: rest => do
    let (n, rest) ← readDigits 8 rest
    return (n, rest)
  | '0' :: 'b' :: rest => do
    let (n, rest) ← readDigits 2 rest
    return (n, rest)
  | '+' :: rest => do
    let (n, rest) ← readDecimal rest
    return (n, rest)
  | '-' :: rest => do
    let (n, rest) ← readDecimal rest
    return (-n, rest)
  | cs => do
    let (n, rest) ← readDecimal cs
    return (n, rest)

/-! ## Lines -/

/-- Drops blanks within a line. -/
def skipBlanks (cs : List Char) : List Char :=
  cs.dropWhile fun c => c = ' ' ∨ c = '\t'

def isBareKeyChar (c : Char) : Bool :=
  c.isAlphanum || c = '_' || c = '-'

/-- A key, bare or quoted. -/
def readKey (cs : List Char) : Option (String × List Char) :=
  match readString? cs with
  | some read => some read
  | none =>
    match cs.takeWhile isBareKeyChar with
    | [] => none
    | key => some (String.ofList key, cs.dropWhile isBareKeyChar)

/-- A value. -/
def readSetting : List Char → Option (Setting × List Char)
  | 't' :: 'r' :: 'u' :: 'e' :: rest => some (.bool true, rest)
  | 'f' :: 'a' :: 'l' :: 's' :: 'e' :: rest => some (.bool false, rest)
  | cs =>
    match readString? cs with
    | some (s, rest) => some (.text s, rest)
    | none => do
      let (n, rest) ← readInteger cs
      return (.integer n, rest)

/-- The end of a line, a comment before it allowed. -/
def readLineEnd (cs : List Char) : Option (List Char) :=
  let afterComment :=
    match skipBlanks cs with
    | '#' :: rest => rest.dropWhile fun c => !isForbidden c
    | cs => cs
  match afterComment with
  | [] => some []
  | '\n' :: rest => some rest
  | '\r' :: '\n' :: rest => some rest
  | _ => none

/-- Drops the mark that may stand at the start of a text. -/
def skipByteOrderMark : List Char → List Char
  | '\uFEFF' :: rest => rest
  | cs => cs

/-- The settings of a text, line by line. -/
def readLines : Nat → List Char → Option (List (String × Setting))
  | 0, _ => none
  | fuel + 1, cs =>
    match skipBlanks cs with
    | [] => some []
    | c :: rest =>
      if c = '#' ∨ c = '\n' ∨ c = '\r' then do
        readLines fuel (← readLineEnd (c :: rest))
      else do
        let (key, rest) ← readKey (c :: rest)
        match skipBlanks rest with
        | '=' :: rest => do
          let (setting, rest) ← readSetting (skipBlanks rest)
          let settings ← readLines fuel (← readLineEnd rest)
          return (key, setting) :: settings
        | _ => none

/-! ## Options -/

/-- Sets one option. -/
def apply (c : Config) : String × Setting → Option Config
  | ("path", .text s) => some { c with path := some s }
  | ("foreign_keys", .bool b) => some { c with foreignKeys := b }
  | ("busy_timeout_ms", .integer n) =>
    if 0 ≤ n ∧ n < 4294967296 then some { c with busyTimeoutMillis := some (UInt32.ofNat n.toNat) }
    else none
  | ("journal_mode", .text s) => do
    return { c with journalMode := some (← JournalMode.ofWord? s) }
  | _ => none

/-- The options of a text. -/
def parse (s : String) : Except Error Config :=
  let cs := skipByteOrderMark s.toList
  let config := do
    let settings ← readLines (cs.length + 1) cs
    if (Keyed.keys settings).Nodup then settings.foldlM apply inMemory else none
  match config with
  | some c => .ok c
  | none => .error (.configuration .unreadable)

end Tabula.Config
