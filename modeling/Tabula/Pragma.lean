import Tabula.Error
import Tabula.Fragment

/-!
# Pragmas

The statements that set a store up when it is opened.
-/

namespace Tabula

/-- How the store keeps its journal. -/
inductive JournalMode where
  | delete
  | truncate
  | persist
  | memory
  | wal
  | off
deriving DecidableEq

namespace JournalMode

def sql : JournalMode → String
  | delete => "DELETE"
  | truncate => "TRUNCATE"
  | persist => "PERSIST"
  | memory => "MEMORY"
  | wal => "WAL"
  | off => "OFF"

/-- The mode of a word in lower case. -/
def ofWord? : String → Option JournalMode
  | "delete" => some delete
  | "truncate" => some truncate
  | "persist" => some persist
  | "memory" => some memory
  | "wal" => some wal
  | "off" => some off
  | _ => none

/-- The mode of a word in any case. -/
def parse (s : String) : Except Error JournalMode :=
  let word := String.ofList (s.toList.map Char.toLower)
  match ofWord? word with
  | some mode => .ok mode
  | none => .error (.configuration (.unknownJournalMode word))

end JournalMode

/-- A setting of the store. -/
inductive Pragma where
  | foreignKeys (enabled : Bool)
  | busyTimeout (millis : UInt32)
  | journalMode (mode : JournalMode)
deriving DecidableEq

/-- The statement of a setting. -/
def Pragma.statement : Pragma → Fragment
  | foreignKeys enabled =>
    (Fragment.raw "PRAGMA foreign_keys =").appendRaw (if enabled then "ON" else "OFF")
  | busyTimeout millis => .raw s!"PRAGMA busy_timeout = {millis.toNat}"
  | journalMode mode => (Fragment.raw "PRAGMA journal_mode =").appendRaw mode.sql

end Tabula
