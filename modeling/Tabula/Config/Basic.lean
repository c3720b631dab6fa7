import Tabula.Pragma

/-!
# Options

How a store is opened. `Config.Reader` reads options from text.
-/

namespace Tabula

/-- The options of a store. -/
structure Config where
  /-- The file of the store; a store without one is kept in memory. -/
  path : Option String := none
  foreignKeys : Bool := true
  busyTimeoutMillis : Option UInt32 := none
  journalMode : Option JournalMode := none
deriving DecidableEq

namespace Config

/-- A store in memory. -/
def inMemory : Config :=
  {}

/-- A store in a file. -/
def file (path : String) : Config :=
  { path := some path }

/-- The settings to make when the store is opened, in order. -/
def pragmas (c : Config) : List Pragma :=
  .foreignKeys c.foreignKeys
    :: ((c.busyTimeoutMillis.map Pragma.busyTimeout).toList
      ++ (c.journalMode.map Pragma.journalMode).toList)

end Config

end Tabula
