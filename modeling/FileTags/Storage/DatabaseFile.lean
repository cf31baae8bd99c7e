import FileTags.Disk
import FileTags.Json.Reader
import FileTags.Json.Writer
/-! # Files as bytes

What the bytes of a file hold.  A database is a text with a mark in front of an object of its rows,
or of nothing if it has no table; other texts and bytes hold themselves.
-/
namespace FileTags.Content

/-- What the file of a database starts with. -/
def databaseMark : String := "tagit database 1\n"

/-- The rows of a database as data. -/
def rowsValue : Option (Entries String String) → Value
  | some rows => .table (rows.map fun row => (row.1, .text row.2))
  | none => .null

/-- The rows that data stands for. -/
def rowsOf? : Value → Option (Option (Entries String String))
  | .null => some none
  | .table entries =>
    some <$> entries.mapM fun
      | (key, .text row) => some (key, row)
      | _ => none
  | _ => none

/-- The bytes of a file. -/
def toBytes : Content → ByteArray
  | .text s => s.toUTF8
  | .bytes bs => ⟨bs.toArray⟩
  | .database rows => (databaseMark ++ Json.write .compact (rowsValue rows)).toUTF8

/-- What a text holds. -/
def ofText (s : String) : Content :=
  if databaseMark.isPrefixOf s then
    match Json.read (String.ofList (s.toList.drop databaseMark.length)) with
    | .ok v => (rowsOf? v).elim (.text s) .database
    | .error _ => .text s
  else .text s

/-- What the bytes of a file hold. -/
def ofBytes (bytes : ByteArray) : Content :=
  match String.fromUTF8? bytes with
  | some s => ofText s
  | none => .bytes bytes.data.toList

end FileTags.Content
