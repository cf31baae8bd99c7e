import FileTags.Path
/-! # File trees

The files and folders that a liveness check can see.  Everything above a known folder is a folder,
and so is the root.  A file comes with its folder, which stays when the file is taken away.  A path
is followed name by name from a starting folder; two dots lead to the folder above, and every step
but the last must be in a folder.  A system may take only names and paths up to a length; it refuses
to say whether there is anything at a longer one.
-/
namespace FileTags

/-- The most bytes that a system takes of a name and of a path, if it does not take any number. -/
structure FileTree.Limits where
  name : Option Nat := none
  path : Option Nat := none
  deriving DecidableEq, Repr

/-- The known files and folders, each by its names below the root, and how long names and paths can
be. -/
structure FileTree where
  files : List (List String)
  folders : List (List String)
  limits : FileTree.Limits := {}
  deriving DecidableEq, Repr

namespace FileTree

/-- Files in their folders, and folders besides. -/
def ofPlaces (files folders : List (List String)) : FileTree :=
  { files, folders := files.map List.dropLast ++ folders }

/-- Whether there is a folder here. -/
def isFolder (t : FileTree) (place : List String) : Bool :=
  place.isEmpty || t.folders.any place.isPrefixOf

/-- Whether there is a file or a folder here. -/
def isThere (t : FileTree) (place : List String) : Bool :=
  t.isFolder place || t.files.contains place

/-- Where names lead from a place; if they pass through something that is no folder, that. -/
def follow (t : FileTree) (place : List String) :
    List String → Except (List String) (List String)
  | [] => .ok place
  | name :: rest =>
    if t.isFolder place then
      if name = ".." then t.follow place.dropLast rest else t.follow (place ++ [name]) rest
    else .error place

/-- Whether a path leads to a file or a folder, if relative paths start at the current one. -/
def leadsSomewhere (t : FileTree) (current : List String) (p : Path) : Bool :=
  match t.follow (if p.isAbsolute then [] else current) p.names with
  | .ok place => t.isThere place
  | .error _ => false

/-- Whether a text is longer than a limit. -/
def exceeds (limit : Option Nat) (text : String) : Bool := limit.any (· < text.utf8ByteSize)

/-- Whether a path, or the name that following it ends at, is longer than the system takes. -/
def refuses (t : FileTree) (current : List String) (p : Path) : Bool :=
  exceeds t.limits.path p.toText ||
    match t.follow (if p.isAbsolute then [] else current) p.names with
    | .ok place | .error place => exceeds t.limits.name (place.getLastD "")

/-- Asks the system whether there is anything at a path. -/
def look (t : FileTree) (current : List String) (p : Path) : Except Failure Bool :=
  if t.refuses current p then .error (.system (.nameTooLong p.toText))
  else .ok (t.leadsSomewhere current p)

/-- Adds a file in its folder. -/
def add (t : FileTree) (file : List String) : FileTree :=
  { t with files := file :: t.files, folders := file.dropLast :: t.folders }

/-- Takes a file away. -/
def remove (t : FileTree) (file : List String) : FileTree :=
  { t with files := t.files.filter (· != file) }

end FileTree

end FileTags
