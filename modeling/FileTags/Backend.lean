import FileTags.Config
import FileTags.Storage.Database
import FileTags.Storage.JsonFile
import FileTags.Storage.Memory
/-! # Backends

The configuration names the storage of a store: a database, a data file, memory, or one that a
plugin brings.  Plugins are not part of this library, and are given.
-/
namespace FileTags

open Storage (Connection Table)

/-- What storages keep their records in: a disk, the database that is open on it, and memory. -/
structure Host where
  disk : Disk
  opened : Option (List String)
  memory : Table
  deriving Repr

namespace Host

/-- The disk with the database that is open. -/
def connection (h : Host) : Connection := ⟨h.disk, h.opened⟩

/-- Puts back the disk with the database that is open. -/
def setConnection (c : Connection) (h : Host) : Host :=
  { h with disk := c.disk, opened := c.opened }

/-- An action on the disk. -/
def onDisk {α : Type} (act : Action Disk α) : Action Host α :=
  act.zoom Host.disk fun disk h => { h with disk }

end Host

/-- Where the records of a store are. -/
inductive Medium where
  | memory
  | jsonFile (path : Path)
  | database (path : Path)
  /-- The storage that a plugin brings, and what makes it ready. -/
  | foreign (prepare : Action Host Unit) (storage : Storage Host)

namespace Medium

/-- The storage of a medium. -/
def storage : Medium → Storage Host
  | .memory => Storage.memory.zoom Host.memory fun memory h => { h with memory }
  | .jsonFile path => (Storage.jsonFile path).zoom Host.disk fun disk h => { h with disk }
  | .database path => (Storage.database path).zoom Host.connection Host.setConnection
  | .foreign _ storage => storage

/-- Makes a medium ready for its storage. -/
def prepare : Medium → Action Host Unit
  | .memory => modify fun h => { h with memory := [] }
  | .jsonFile _ => return ()
  | .database path => (Storage.openDatabase path).zoom Host.connection Host.setConnection
  | .foreign prepare _ => prepare

end Medium

/-- A plugin: the name of the storage that it brings, and how that is made of a configuration. -/
structure Plugin where
  name : String
  prepare : Config → Action Host Unit
  storage : Config → Storage Host

namespace Backend

/-- The names of the storages that are always there. -/
def builtIn : List String := ["sqlite", "json", "memory"]

/-- The file of a storage in the folder of its store. -/
def fileOf (c : Config) (default : String) : Except Failure Path :=
  match Config.valueOr c.params "filename" (.text default) with
  | .text name => .ok (c.folder.child name)
  | _ => .error .wrongKind

/-- The names of all storages, with those that plugins bring. -/
def available (plugins : List Plugin) : List String := builtIn ++ plugins.map Plugin.name

/-- The medium of a configuration, with the plugins that are there.  Of plugins with one name the first
counts. -/
def medium (plugins : List Plugin) (c : Config) : Except Failure Medium :=
  match c.backend with
  | .text name =>
    if name = "sqlite" then return .database (← fileOf c "tags.db")
    else if name = "json" then return .jsonFile (← fileOf c "tags.json")
    else if name = "memory" then .ok .memory
    else
      match plugins.find? (·.name = name) with
      | some plugin => .ok (.foreign (plugin.prepare c) (plugin.storage c))
      | none => .error (.unknownBackend c.backend (available plugins))
  | v => .error (.showing v (.unknownBackend v (available plugins)))

/-- Whether a store with this configuration keeps an operations log. -/
def keepsOpsLog (c : Config) : Bool := c.backend.text? != some "memory"

/-- The name of the operations log. -/
def opsLogName : String := "tagit-ops.log"

/-- Opens the medium of a configuration and takes its operations log into use. -/
def openConfigured (plugins : List Plugin) (c : Config) : Action (World Host) Medium := do
  let m ← Action.ofExcept (medium plugins c)
  World.onState m.prepare
  if keepsOpsLog c then
    World.onState (Host.onDisk do
      Disk.makeFolder c.folder
      Disk.touch (c.folder.child opsLogName))
    modify fun w => { w with log := w.log.attachOps }
  return m

end Backend

end FileTags
