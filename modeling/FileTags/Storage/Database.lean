import FileTags.Disk
import FileTags.Json.Reader
import FileTags.Json.Writer
import FileTags.Storage.Basic
/-! # Storage in a database

Each record is a row of a table: the key, and the record as a data text.  Keys are listed in the
order of their characters.  The database is opened once and closed at the end; after that every
action fails.  Another program may change the rows, or take the table away, while it is open.
-/
namespace FileTags.Storage

/-- A disk, and the place of the database that is open on it, if one is. -/
structure Connection where
  disk : Disk
  opened : Option (List String)
  deriving Repr

/-- The rows of a database: a text under each key. -/
abbrev Rows := Entries String String

/-- The rows of the database that a file holds.  A file of a single byte or none is a database
without a table. -/
def rowsOf : Content → Except RowFault Rows
  | .database (some rows) => .ok rows
  | .database none => .error .noTable
  | .text s => .error (if s.utf8ByteSize ≤ 1 then .noTable else .notDatabase)
  | .bytes bs => .error (if bs.length ≤ 1 then .noTable else .notDatabase)

/-- The most bytes of the name of a database: its journal adds to it. -/
def maxNameBytes : Nat := 247

/-- The most bytes of the path of a database. -/
def maxPathBytes : Nat := 504

/-- Whether a path is too long for a database. -/
def isTooLong (p : Path) : Bool :=
  maxNameBytes < p.lastName.utf8ByteSize || maxPathBytes < p.toText.utf8ByteSize

/-- The rows of the database at a place; without a file it has no table. -/
def rowsAt (d : Disk) (place : List String) : Except RowFault Rows :=
  match Entries.find? d.files place with
  | some c => rowsOf c
  | none => .error .noTable

variable (path : Path)

/-- An action on the disk. -/
def onDisk {α : Type} (act : Action Disk α) : Action Connection α :=
  act.zoom Connection.disk fun disk c => { c with disk }

/-- Makes what fails in the system a failure to open the database. -/
def opening {α : Type} (detail : SystemFault → String) (act : Action Connection α) :
    Action Connection α := do
  match ← act.attempt with
  | .ok a => return a
  | .error (.system fault) => throw (.storage (.cannotOpen path.toText (some (detail fault))))
  | .error f => throw f

/-- The text of the engine for a file that it cannot open. -/
def cannotOpenFile : String := "unable to open database file"

/-- The place of a database that can be opened. -/
def databasePlace : Action Connection (List String) := do
  let place ← Action.ofExcept ((← get).disk.filePlace path)
  if isTooLong path then throw (.system (.nameTooLong path.toText))
  return place

/-- Opens the database of a path, and makes its file and its table if they are missing. -/
def openDatabase : Action Connection Unit := do
  opening path SystemFault.message (onDisk (Disk.makeFolder path.parent))
  let place ← opening path (fun _ => cannotOpenFile) (databasePlace path)
  let openWith (rows : Rows) : Action Connection Unit :=
    modify fun c => ⟨c.disk.setFile place (.database (some rows)), some place⟩
  match rowsAt (← get).disk place with
  | .ok rows => openWith rows
  | .error .noTable => openWith []
  | .error fault => throw (.storage (.cannotOpen path.toText (some fault.message)))

/-- The place of the open database. -/
def openPlace : Action Connection (List String) := do
  match (← get).opened with
  | some place => return place
  | none => throw (.storage (.closed path.toText))

/-- The rows of the open database; the failure is that of a fault with them. -/
def rows (failure : RowFault → StorageFault) : Action Connection Rows := do
  let place ← openPlace path
  match rowsAt (← get).disk place with
  | .ok rows => return rows
  | .error fault => throw (.storage (failure fault))

/-- Puts rows into the open database. -/
def setRows (rows : Rows) : Action Connection Unit := do
  let place ← openPlace path
  modify fun c => { c with disk := c.disk.setFile place (.database (some rows)) }

/-- The record that the text of a row is. -/
def recordOfRow (key text : String) : Except Failure Record :=
  match Json.read text with
  | .ok (.list items) => .ok (items.map fun v => .text v.toText)
  | .ok _ => .error (.storage (.recordNotList key))
  | .error fault => .error (.ofReading (.storage (.corruptRecord key)) fault)

/-- The logger of the storage. -/
def databaseLogger : String := "tagit.sqlite_store"

/-- The storage in the database of a path. -/
def database : Storage Connection where
  read k := do
    match Entries.find? (← rows path (.row .read k)) k with
    | some text => return some (← .ofExcept (recordOfRow k text))
    | none => return none
  write k r := do
    let rows ← rows path (.row .write k)
    setRows path (Entries.put rows k (Json.write .compact (.list r)))
  delete k := do
    let rows ← rows path (.row .delete k)
    setRows path (Entries.drop rows k)
    return Entries.has rows k
  keys := return (Entries.keys (← rows path .listing)).mergeSort fun k l => k ≤ l
  close := do
    let c ← get
    if c.opened.isSome then
      set { c with opened := none }
      return [⟨.debug, databaseLogger, "Closed tag database " ++ path.toText⟩]
    else return []

end FileTags.Storage
