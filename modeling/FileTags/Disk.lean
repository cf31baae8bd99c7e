import FileTags.Action
import FileTags.FileTree
/-! # Disks

The files and folders that a store keeps its data in, each by its place: its names below the root.
A path is followed name by name through folders that are there, and two dots lead to the folder
above; so where a path leads depends on the folders alone, and writing files does not change it.  A
file is written into a folder that is there; making a folder also makes the missing ones above it.
Renaming a file onto another can be made to fail, so that the rest of the program can be seen to
bear it.
-/
namespace FileTags

/-- What a file holds: a text, bytes that are no text, or a database with its rows, if it has any
table for them. -/
inductive Content where
  | text (s : String)
  | bytes (bs : List UInt8)
  | database (rows : Option (Entries String String))
  deriving Repr

/-- Files, the folders that are there with all above them, and why renaming onto a file fails at
the moment, if it does. -/
structure Disk where
  files : Entries (List String) Content
  folders : List (List String)
  renameFault : Option String
  deriving Repr

namespace Disk

/-- A disk without files. -/
def empty : Disk := ⟨[], [], none⟩

/-- The folders. -/
def folderTree (d : Disk) : FileTree := { files := [], folders := d.folders }

/-- Whether there is a folder at a place. -/
def isFolder (d : Disk) (place : List String) : Bool := d.folderTree.isFolder place

/-- Whether there is a file at a place. -/
def isFile (d : Disk) (place : List String) : Bool := Entries.has d.files place

/-- Sets what the file at a place holds. -/
def setFile (d : Disk) (place : List String) (c : Content) : Disk :=
  { d with files := Entries.put d.files place c }

/-- Takes the file at a place away. -/
def removeFile (d : Disk) (place : List String) : Disk :=
  { d with files := Entries.drop d.files place }

/-- Puts a folder at a place. -/
def addFolder (d : Disk) (place : List String) : Disk := { d with folders := place :: d.folders }

/-- Puts a file at a place, and the folder it is in. -/
def put (d : Disk) (place : List String) (c : Content) : Disk :=
  (d.addFolder place.dropLast).setFile place c

/-! ## Following paths -/

/-- The most bytes of a name. -/
def maxNameBytes : Nat := 255

/-- The most bytes of a path. -/
def maxPathBytes : Nat := 4095

/-- Whether the last name of a place is longer than a name can be. -/
def endsTooLong (place : List String) : Bool :=
  maxNameBytes < (place.getLastD "").utf8ByteSize

/-- The place that a path leads to, where nothing need be yet.  The first name that is too long, or
that is no folder and not the last, ends the way. -/
def locate (d : Disk) (p : Path) : Except Failure (List String) :=
  if p.hasNul then .error .nulInPath
  else if maxPathBytes < p.toText.utf8ByteSize then .error (.system (.nameTooLong p.toText))
  else
    match d.folderTree.follow [] p.names with
    | .ok place =>
      if endsTooLong place then .error (.system (.nameTooLong p.toText)) else .ok place
    | .error place =>
      if endsTooLong place then .error (.system (.nameTooLong p.toText))
      else if d.isFile place then .error (.system (.notAFolder p.toText))
      else .error (.system (.missing p.toText))

/-- Where a path leads depends on the folders alone; the files only tell why it leads nowhere. -/
theorem locate_congr {d e : Disk} (h : d.folders = e.folders) (p : Path) :
    (d.locate p).toOption = (e.locate p).toOption := by
  unfold locate folderTree
  rw [h]
  split
  · rfl
  · split
    · rfl
    · split
      · rfl
      · split
        · rfl
        · split <;> split <;> rfl

@[simp] theorem locate_setFile (d : Disk) (place : List String) (c : Content) (p : Path) :
    ((d.setFile place c).locate p).toOption = (d.locate p).toOption :=
  locate_congr (show (d.setFile place c).folders = d.folders from rfl) p

@[simp] theorem locate_removeFile (d : Disk) (place : List String) (p : Path) :
    ((d.removeFile place).locate p).toOption = (d.locate p).toOption :=
  locate_congr (show (d.removeFile place).folders = d.folders from rfl) p

/-- Whether there is anything at a path.  A way that ends too early says no; a name that is too long
cannot be asked for. -/
def has (d : Disk) (p : Path) : Except Failure Bool :=
  match d.locate p with
  | .ok place => .ok (d.isFolder place || d.isFile place)
  | .error (.system (.nameTooLong text)) => .error (.system (.nameTooLong text))
  | .error _ => .ok false

/-- The place of a path at which there can be a file: there is no folder. -/
def filePlace (d : Disk) (p : Path) : Except Failure (List String) := do
  let place ← d.locate p
  if d.isFolder place then throw (.system (.isAFolder p.toText))
  return place

/-- What the file of a path holds. -/
def read (d : Disk) (p : Path) : Except Failure Content := do
  match Entries.find? d.files (← d.filePlace p) with
  | some c => return c
  | none => throw (.system (.missing p.toText))

/-! ## Changing the disk -/

/-- Writes the file of a path. -/
def write (p : Path) (c : Content) : Action Disk Unit := do
  let d ← get
  let place ← Action.ofExcept (d.filePlace p)
  set (d.setFile place c)

/-- Makes the file of a path, with an empty text, unless it is there. -/
def touch (p : Path) : Action Disk Unit := do
  let d ← get
  let place ← Action.ofExcept (d.filePlace p)
  if !d.isFile place then set (d.setFile place (.text ""))

/-- Puts a file in the place of another, unless that fails at the moment or a folder is there. -/
def rename (source : List String) (p : Path) : Action Disk Unit :=
  .ofRun fun d =>
    match d.renameFault, d.filePlace p, Entries.find? d.files source with
    | some text, _, _ => (.error (.system (.stated text)), d)
    | none, .error f, _ => (.error f, d)
    | none, .ok _, none => (.error (.system (.missing (Path.mk .slash source).toText)), d)
    | none, .ok target, some c => (.ok (), (d.removeFile source).setFile target c)

/-- How many bytes the name of a new file has more than that of the file it is made beside. -/
def freshBytes : Nat := 10

/-- A place for a new file beside a path: its name is longer than all names in use. -/
def freshBeside (d : Disk) (p : Path) : Except Failure (List String) := do
  let folder ← d.locate p.parent
  if maxNameBytes < p.lastName.utf8ByteSize + freshBytes
      ∨ maxPathBytes < p.toText.utf8ByteSize + freshBytes then
    throw (.system (.nameTooLong p.toText))
  let total := (Entries.keys d.files).foldl (fun sum place =>
    place.foldl (fun sum name => sum + name.length) sum) 0
  let filler := String.ofList (List.replicate (total + 1) 'x')
  return folder ++ ["." ++ p.lastName ++ "." ++ filler]

/-- Replaces a file as a whole: what it is to hold goes to a new file beside it, which then takes
its place.  If that fails the new file is taken away again. -/
def replace (p : Path) (c : Content) : Action Disk Unit := do
  if p.hasNul then throw .nulInPath
  let fresh ← Action.ofExcept ((← get).freshBeside p)
  modify fun d => d.setFile fresh c
  match ← (rename fresh p).attempt with
  | .ok () => return
  | .error f =>
    -- The place of the file itself has not been touched.
    modify fun d => d.removeFile fresh
    throw f

/-- Makes a folder in a folder that is there, unless it is there itself. -/
def makeOneFolder (p : Path) : Action Disk Unit :=
  .ofRun fun d =>
    match d.locate p with
    | .error f => (.error f, d)
    | .ok place =>
      if d.isFile place then (.error (.system (.alreadyThere p.toText)), d)
      else if d.isFolder place then (.ok (), d)
      else (.ok (), d.addFolder place)

/-- Makes the folder of names, given from the last to the first, and before it those above it if
they are missing. -/
def makeFolders (root : Path.Root) : List String → Action Disk Unit
  | [] => makeOneFolder ⟨root, []⟩
  | name :: above => do
    let p : Path := ⟨root, (name :: above).reverse⟩
    match ← (makeOneFolder p).attempt with
    | .ok () => return
    | .error (.system (.missing _)) =>
      makeFolders root above
      makeOneFolder p
    | .error f => throw f

/-- Makes a folder and those above it, unless they are there. -/
def makeFolder (p : Path) : Action Disk Unit := makeFolders p.root p.names.reverse

end Disk

end FileTags
