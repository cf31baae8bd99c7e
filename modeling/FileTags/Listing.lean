import FileTags.Failure
import FileTags.Json.Writer
/-! # Listings

What a user sees: a file with its tags, and a tag with its files; as lines of text, or as data.
Lines can only be made of tags that are texts.
-/
namespace FileTags

/-- A file and its tags. -/
structure TaggedFile where
  id : String
  tags : List Value
  deriving Repr

/-- A tag and the files that carry it. -/
structure TagGroup where
  tag : Value
  ids : List String
  deriving Repr

/-- Texts with a separator between them; a value that is no text cannot be joined. -/
def joinTexts (separator : String) (vs : List Value) : Except Failure String :=
  match Value.texts? vs with
  | some texts => .ok (String.intercalate separator texts)
  | none => .error .wrongKind

namespace TaggedFile

/-- The file as data. -/
def toValue (f : TaggedFile) : Value := .table [("id", .text f.id), ("tags", .list f.tags)]

/-- The file as a line. -/
def line (f : TaggedFile) : Except Failure String :=
  return f.id ++ ": " ++ (← joinTexts ", " f.tags)

/-- Whether two files are the same, with the same tags in the same order. -/
def same (f g : TaggedFile) : Bool := f.id == g.id && Value.sameItems f.tags g.tags

end TaggedFile

/-- The group as data. -/
def TagGroup.toValue (g : TagGroup) : Value :=
  .table [("tag", g.tag), ("ids", .list (g.ids.map .text))]

namespace Listing

/-- Files, a line each, or a text that says there are none. -/
def files (fs : List TaggedFile) (asData : Bool) (none : String) : Except Failure String :=
  if asData then .ok (Json.write .indentedAscii (.list (fs.map TaggedFile.toValue)))
  else if fs.isEmpty then .ok none
  else return String.intercalate "\n" (← fs.mapM TaggedFile.line)

/-- The text for no files at all. -/
def noFiles : String := "No tagged files."

/-- The text for no tags at all. -/
def noTags : String := "No tags found."

/-- The tags of one file, a line each. -/
def file (f : TaggedFile) (asData : Bool) : Except Failure String :=
  if asData then .ok (Json.write .indentedAscii f.toValue)
  else if f.tags.isEmpty then .ok noTags
  else joinTexts "\n" f.tags

/-- The lines of a group: the tag with the number of files, and the files, indented. -/
def groupLines (g : TagGroup) : List String :=
  (g.tag.toText ++ " (" ++ toString g.ids.length ++ ")") :: g.ids.map ("  " ++ ·)

/-- Groups, each with its files. -/
def groups (gs : List TagGroup) (asData : Bool) : String :=
  if asData then Json.write .indentedAscii (.list (gs.map TagGroup.toValue))
  else if gs.isEmpty then noTags
  else String.intercalate "\n" (gs.flatMap groupLines)

end Listing

end FileTags
