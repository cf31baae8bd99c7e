import FileTags.FileTree
import FileTags.Uri
/-! # Identities

A file is known by its identity: a URI as it is given, or the file URI of its path, made absolute
from the current directory, so that all spellings of one path give one identity.  An identity has
one to `maxLength` characters, none of them a control.

Liveness asks whether the file of an identity is still there.  Only files of this system can be
asked for; the authority of a file URI, unless it is this host, is a place below the second root.
-/
namespace FileTags

/-- Where a relative path starts and where the home directories are. -/
structure Surroundings where
  current : String
  homes : Homes

namespace Identity

/-- The most characters of an identity. -/
def maxLength : Nat := 4096

/-- A character that an identity cannot hold. -/
def isControl (c : Char) : Bool := c.toNat < 0x20 || c.toNat = 0x7F

/-- Checks a text that is to be an identity. -/
def check (id : String) : Except Failure Unit :=
  if id.isEmpty || maxLength < id.length then .error .idLength
  else if id.toList.any isControl then .error (.idCharacters id)
  else .ok ()

/-- The text of a value that is to be an identity.  An empty value fails for its length, and so
does a list or a table that is too long; any other value that is no text is of the wrong kind. -/
def ofValue (v : Value) : Except Failure String :=
  match v with
  | .text s => .ok s
  | .list items =>
    .error (if items.isEmpty || maxLength < items.length then .idLength else .wrongKind)
  | .table entries =>
    .error (if entries.isEmpty || maxLength < entries.length then .idLength else .wrongKind)
  | v => .error (if v.isEmpty then .idLength else .wrongKind)

/-- The file URI of an absolute path. -/
def ofPath (p : Path) : String := "file://" ++ String.ofList (Uri.encode p.toText.toList)

/-- The path that a text which is no URI stands for. -/
def pathOf (s : Surroundings) (text : String) : Except Failure Path := do
  let p ← (Path.parse text).expandHome s.homes
  return (Path.parse s.current).under p

/-- The identity that a text stands for. -/
def normalize (s : Surroundings) (id : String) : Except Failure String := do
  check id
  if Uri.isUri id then return id
  return ofPath (← pathOf s id)

/-- The path that the file of an identity lies at. -/
def location (homes : Homes) (id : String) : Except Failure Path :=
  if Uri.isUri id then
    match Uri.parts id with
    | .error fault => .error (.authority fault)
    | .ok uri =>
      if uri.scheme ≠ "file" then .error (.foreignIdentity uri.scheme id)
      else
        let path := String.ofList (Uri.decode uri.path)
        if uri.authority ≠ "" ∧ uri.authority ≠ "localhost" then
          .ok (Path.parse ("//" ++ uri.authority ++ path))
        else .ok (Path.parse path)
  else (Path.parse id).expandHome homes

/-- Whether the file of an identity is still there. -/
def isAlive (s : Surroundings) (tree : FileTree) (id : String) : Except Failure Bool := do
  let p ← location s.homes id
  tree.look (Path.parse s.current).names p

end Identity

end FileTags
