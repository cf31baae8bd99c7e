import FileTags.Disk
import FileTags.Json.Reader
import FileTags.Json.Writer
import FileTags.Storage.Basic
/-! # Storage in a data file

All records lie in one file, as the members of an object.  The file is read anew for every action,
so it may change in between.  A write goes to a new file that then replaces the old one; if that
fails, the old file stays as it was.  A missing file holds no records.  A record that is no list,
or a file that is no object, is a fault; an item that is no text is read as the text that shows it.
-/
namespace FileTags.Storage

variable (path : Path)

/-- The members of the object in the file. -/
def loadFile : Action Disk (Entries String Value) := do
  let d ← get
  if ← Action.ofExcept (d.has path) then
    match d.read path with
    | .ok (.text s) =>
      match Json.read s with
      | .ok (.table entries) => return entries
      | .ok _ => throw (.storage (.noTableInFile path.toText))
      | .error fault => throw (.ofReading (.storage (.unreadableFile path.toText)) fault)
    | .ok _ => throw .undecodable
    | .error _ => throw (.storage (.unreadableFile path.toText))
  else return []

/-- Writes the object anew. -/
def saveFile (entries : Entries String Value) : Action Disk Unit := do
  let act : Action Disk Unit := do
    Disk.makeFolder path.parent
    Disk.replace path (.text (Json.write .indented (.table entries)))
  match ← act.attempt with
  | .ok () => return
  | .error (.system fault) =>
    throw (.storage (.unwritableFile path.toText (some fault.message)))
  | .error f => throw f

/-- The record that a member of the object is. -/
def recordOf (key : String) : Value → Except Failure (Option Record)
  | .null => .ok none
  | .list items => .ok (some (items.map fun v => .text v.toText))
  | _ => .error (.storage (.recordNotList key))

/-- The storage in the file of a path. -/
def jsonFile : Storage Disk where
  read k := do
    match Entries.find? (← loadFile path) k with
    | some v => .ofExcept (recordOf k v)
    | none => return none
  write k r := do saveFile path (Entries.put (← loadFile path) k (.list r))
  delete k := do
    let entries ← loadFile path
    if Entries.has entries k then
      saveFile path (Entries.drop entries k)
      return true
    else return false
  keys := return Entries.keys (← loadFile path)
  close := pure []

end FileTags.Storage
