import FileTags.Failure
import FileTags.Text.Pieces
/-! # Paths

A path is a root and the names below it.  Empty names and single dots say nothing and are dropped;
two dots stay, since what they lead to depends on the files.  A path that starts with exactly two
slashes has a root of its own.  A relative path whose first name starts with a tilde is below a
home directory, one's own or that of the user who is named.
-/
namespace FileTags

/-- Where a path starts: at the current directory, at the root, or at the second root. -/
inductive Path.Root where
  | relative
  | slash
  | doubleSlash
  deriving DecidableEq, Repr

/-- A root and the names below it. -/
structure Path where
  root : Path.Root
  names : List String
  deriving DecidableEq, Repr

/-- The home directories: one's own, and those of the users that the system knows. -/
structure Homes where
  own : String
  ofUser : String → Option String := fun _ => none

/-- The home directory that a name with a tilde in front stands for: one's own if nothing follows, and
else that of the user who is named.  A name that cannot be a user's cannot be asked for. -/
def Homes.directory (homes : Homes) (name : String) : Except Failure String :=
  if name = "~" then .ok homes.own
  else if name.toList.contains '\x00' then .error .nulInPath
  else
    match homes.ofUser (String.ofList name.toList.tail) with
    | some home => .ok home
    | none => .error .noHome

namespace Path

/-- The text of a root. -/
def Root.text : Root → String
  | .relative => ""
  | .slash => "/"
  | .doubleSlash => "//"

/-- The root that a text starts with: two slashes count apart only if no third follows. -/
def rootOf : List Char → Root
  | '/' :: '/' :: '/' :: _ => .slash
  | '/' :: '/' :: _ => .doubleSlash
  | '/' :: _ => .slash
  | _ => .relative

/-- Whether a name says where to go. -/
def isName (name : List Char) : Bool := !name.isEmpty && name != ['.']

/-- The path that a text stands for. -/
def parse (s : String) : Path :=
  ⟨rootOf s.toList, ((Text.pieces '/' s.toList).filter isName).map String.ofList⟩

/-- The text of a path; the path that goes nowhere is a dot. -/
def toText (p : Path) : String :=
  if p.root = .relative ∧ p.names = [] then "."
  else p.root.text ++ String.intercalate "/" p.names

/-- Whether a path starts at a root. -/
def isAbsolute (p : Path) : Bool := p.root != .relative

/-- A path seen from another: an absolute one is itself. -/
def under (base p : Path) : Path := if p.isAbsolute then p else ⟨base.root, base.names ++ p.names⟩

/-- The path of a name in a directory. -/
def child (p : Path) (name : String) : Path := p.under (parse name)

/-- The directory that a path is in; a root is in itself. -/
def parent (p : Path) : Path := ⟨p.root, p.names.dropLast⟩

/-- The last name of a path; a root has none. -/
def lastName (p : Path) : String := p.names.getLastD ""

/-- The names below the root that a path leads to if two dots just take the name before away. -/
def resolved (p : Path) : List String :=
  p.names.foldl (fun place name => if name = ".." then place.dropLast else place ++ [name]) []

/-- Whether a path has a character that ends texts, which no system takes in a path. -/
def hasNul (p : Path) : Bool := p.names.any fun name => name.toList.contains '\x00'

/-- The text of a home directory without the slashes at its end. -/
def homeText (home : String) : String :=
  let kept := (home.toList.reverse.dropWhile (· == '/')).reverse
  if kept.isEmpty then "/" else String.ofList kept

/-- Replaces a first name with a tilde in front by the home directory that it stands for.  A home
that itself starts with a tilde is none. -/
def expandHome (homes : Homes) (p : Path) : Except Failure Path :=
  match p.root, p.names with
  | .relative, first :: rest =>
    if first.toList.head? = some '~' then
      match homes.directory first with
      | .ok home =>
        if (homeText home).toList.head? = some '~' then .error .noHome
        else .ok ⟨(parse (homeText home)).root, (parse (homeText home)).names ++ rest⟩
      | .error f => .error f
    else .ok p
  | _, _ => .ok p

end Path

end FileTags
