import FileTags.Disk
import FileTags.Toml.Reader
import FileTags.Toml.Writer
/-! # Configurations

A store lies in a folder, and a configuration file in that folder says which storage it uses and
whether files that are gone are swept before listing.  What the file does not say has a default.
Values are kept as they stand in the file: only the version and the sweeping are checked, and the
rest is up to whoever uses it.  What prints the file is not part of this library, and is given.
-/
namespace FileTags

/-- A configuration of the store in a folder. -/
structure Config where
  folder : Path
  version : Value
  created : Value
  backend : Value
  /-- What the storage is to know besides its name. -/
  params : Entries String Value
  sweepOnList : Value
  deriving Repr

namespace Config

/-- The name of the configuration file. -/
def fileName : String := "tagit.toml"

/-- The latest version that can be read. -/
def latestVersion : Int := 1

/-- The storage that is used if none is named. -/
def defaultBackend : String := "sqlite"

/-- The configuration of a new store. -/
def fresh (folder : Path) (now : String) : Config :=
  ⟨folder, .int latestVersion, .text now, .text defaultBackend, [], .bool false⟩

/-- The file of the store in a folder. -/
def fileOf (folder : Path) : Path := folder.child fileName

/-- The file of a configuration. -/
def file (c : Config) : Path := fileOf c.folder

/-- The entries of a table; anything else has none to look up. -/
def entriesOf : Value → Except Failure (Entries String Value)
  | .table entries => .ok entries
  | _ => .error .notATable

/-- The entries of a section; a missing one has none. -/
def sectionOf (root : Entries String Value) (name : String) :
    Except Failure (Entries String Value) :=
  match Entries.find? root name with
  | some v => entriesOf v
  | none => .ok []

/-- The value of a name, or a default. -/
def valueOr (entries : Entries String Value) (name : String) (default : Value) : Value :=
  (Entries.find? entries name).getD default

/-- Checks that a version can be read. -/
def checkVersion (version : Value) : Except Failure Unit :=
  match version.quantity? with
  | none => .error .wrongKind
  | some q =>
    if q.compare? (.whole latestVersion) = some .gt then
      .error (.showing version (.configTooNew version))
    else .ok ()

/-- The configuration that a file says. -/
def ofFields (folder : Path) (root : Entries String Value) : Except Failure Config := do
  let store ← sectionOf root "store"
  let version := valueOr store "version" (.int 1)
  checkVersion version
  let backend ← sectionOf root "backend"
  let sweep ← sectionOf root "sweep"
  let onList := valueOr sweep "on_list" (.bool false)
  match onList with
  | .bool _ =>
    return {
      folder, version
      created := valueOr store "created" (.text "")
      backend := valueOr backend "name" (.text defaultBackend)
      params := backend.filter fun e => e.1 ≠ "name"
      sweepOnList := onList }
  | v => throw (.showing v (.sweepNotTruth v))

/-- What a configuration says, as the tables of its file. -/
def toFields (c : Config) : Entries String Value :=
  let named : Entries String Value := [("name", c.backend)]
  [("store", .table [("version", c.version), ("created", c.created)]),
   ("backend", .table (c.params.foldl (fun es e => Entries.put es e.1 e.2) named)),
   ("sweep", .table [("on_list", c.sweepOnList)])]

/-- Reads the configuration of the store in a folder. -/
def load (folder : Path) : Action Disk Config := do
  let d ← get
  let path := fileOf folder
  if !(← Action.ofExcept (d.has path)) then throw (.configMissing path.toText)
  match ← Action.ofExcept (d.read path) with
  | .text s =>
    match Toml.read s with
    | .ok root => .ofExcept (ofFields folder root)
    | .error fault => throw (.ofReading (.configMalformed path.toText) fault)
  | _ => throw .undecodable

/-- Writes a configuration to its file, in a folder that is made if it is missing. -/
def save (printer : Toml.Printer) (c : Config) : Action Disk Unit := do
  Disk.makeFolder c.folder
  let printed := printer c.toFields
  -- The file is opened before anything is printed, so what was in it is lost also if printing fails.
  Disk.write c.file (.text printed.text)
  match printed.fault with
  | some f => throw f
  | none => return ()

/-- Reads the configuration of a store, or makes a new one. -/
def loadOrCreate (printer : Toml.Printer) (folder : Path) (now : String) : Action Disk Config := do
  if ← Action.ofExcept ((← get).has (fileOf folder)) then load folder
  else
    let c := fresh folder now
    save printer c
    return c

end Config

/-- The folder of the store: the one that the environment names, or one in the home directory. -/
def defaultFolder (named : Option String) (homes : Homes) : Except Failure Path :=
  match named with
  | some path => if path.isEmpty then atHome else (Path.parse path).expandHome homes
  | none => atHome
where
  atHome : Except Failure Path := return (← (Path.parse "~").expandHome homes).child ".tagit"

end FileTags
