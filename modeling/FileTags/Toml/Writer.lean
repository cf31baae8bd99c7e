import FileTags.Printed
import FileTags.Text.Hex
/-! # Writing a configuration

Each table is a section: a header, its plain values, a line each, and then the tables in it, a
blank line before each.  Lists stand with an item on each line.  A list of tables has a section
for each of them, unless all of them are short enough to stand on a line each.
-/
namespace FileTags.Toml

/-- What prints tables. -/
abbrev Printer := List (String × Value) → Printed

/-- The longest line of a table in braces. -/
def maxLineLength : Nat := 100

/-- The blanks in front of an item at a depth. -/
def indentation (depth : Nat) : String := String.ofList (List.replicate (4 * depth) ' ')

/-- How one character stands between quotes. -/
def writeChar (c : Char) : List Char :=
  if c = '"' then ['\\', '"']
  else if c = '\\' then ['\\', '\\']
  else if c = '\n' then ['\\', 'n']
  else if c = '\r' then ['\\', 'r']
  else if c = '\x08' then ['\\', 'b']
  else if c = '\x0c' then ['\\', 'f']
  else if (c.toNat < 0x20 && c ≠ '\t') || c.toNat = 0x7F then '\\' :: 'u' :: Text.hexLower 4 c.toNat
  else [c]

/-- A text between quotes. -/
def writeText (s : String) : String :=
  String.ofList ('"' :: s.toList.flatMap writeChar ++ ['"'])

/-- Whether a name needs no quotes. -/
def isBare (name : String) : Bool :=
  !name.isEmpty && name.toList.all fun c => c.isAlphanum || c = '-' || c = '_'

/-- A name of a key. -/
def writeName (name : String) : String := if isBare name then name else writeText name

/-- The texts of a list, if each has one. -/
def allOf (parts : List (Except Failure String)) : Except Failure (List String) := parts.mapM id

mutual

/-- A value on the right of a key, at a depth of lists; nothing is no such value. -/
def literal (depth : Nat) : Value → Except Failure String
  | .null => .error .wrongKind
  | .bool b => .ok (if b then "true" else "false")
  | .int n => if (Value.int n).isShowable then .ok (toString n) else .error .tooManyDigitsToShow
  | .float x => .ok x.toText
  | .text s => .ok (writeText s)
  | .moment m => .ok m.toText
  | .list items => do
    let lines ← allOf (literalItems (depth + 1) items)
    if lines.isEmpty then .ok "[]"
    else .ok ("[\n" ++ String.join (lines.map (· ++ ",\n")) ++ indentation depth ++ "]")
  | .table entries => do
    let parts ← allOf (literalEntries entries)
    if parts.isEmpty then .ok "\x7b\x7d"
    else .ok ("\x7b " ++ String.intercalate ", " parts ++ " \x7d")

/-- The items of a list, each with its indentation. -/
def literalItems (depth : Nat) : List Value → List (Except Failure String)
  | [] => []
  | v :: vs => (literal depth v).map (indentation depth ++ ·) :: literalItems depth vs

/-- The entries of a table in braces. -/
def literalEntries : List (String × Value) → List (Except Failure String)
  | [] => []
  | (k, v) :: rest => (literal 0 v).map (writeName k ++ " = " ++ ·) :: literalEntries rest

end

/-- Whether a value is a table. -/
def isTable : Value → Bool
  | .table _ => true
  | _ => false

/-- Whether a table can stand on a line among the items of a list. -/
def fitsLine (v : Value) : Bool :=
  match literal 0 v with
  | .ok s => s.length + 5 ≤ maxLineLength && !s.toList.contains '\n'
  | .error _ => false

/-- Whether a value has sections of its own: tables, and lists of tables that are not all short. -/
def hasSections : Value → Bool
  | .table _ => true
  | .list vs => !vs.isEmpty && vs.all isTable && !vs.all fitsLine
  | _ => false

/-- The line of a key with a plain value. -/
def line (k : String) (v : Value) : Chunk :=
  (literal 0 v).map fun s => writeName k ++ " = " ++ s ++ "\n"

/-- The lines of the plain values among entries. -/
def plainLines (entries : List (String × Value)) : List Chunk :=
  (entries.filter fun e => !hasSections e.2).map fun e => line e.1 e.2

/-- The name of a table within another. -/
def nameWithin (outer name : String) : String :=
  if outer.isEmpty then writeName name else outer ++ "." ++ writeName name

/-- The header of a section, unless the table is the whole text or holds nothing but tables. -/
def header (name : String) (inList : Bool) (entries : List (String × Value)) : List Chunk :=
  if inList then [.ok ("[[" ++ name ++ "]]\n")]
  else if name.isEmpty || ((plainLines entries).isEmpty && entries.any fun e => hasSections e.2) then []
  else [.ok ("[" ++ name ++ "]\n")]

/-- The head of a section and the sections in it, a blank line between them. -/
def joinSections (head : List Chunk) (inner : List (List Chunk)) : List Chunk :=
  if head.isEmpty then [.ok "\n"].intercalate inner else head ++ inner.flatMap (.ok "\n" :: ·)

mutual

/-- The section of a table, and those of the tables in it. -/
def sections (name : String) (inList : Bool) : Value → List Chunk
  | .table entries =>
    joinSections (header name inList entries ++ plainLines entries) (innerSections name entries)
  | _ => []

/-- The sections of the tables among entries. -/
def innerSections (outer : String) : List (String × Value) → List (List Chunk)
  | [] => []
  | (k, v) :: rest =>
    (if hasSections v then
      match v with
      | .list tables => listSections (nameWithin outer k) tables
      | v => [sections (nameWithin outer k) false v]
    else []) ++ innerSections outer rest

/-- The sections of the tables of a list. -/
def listSections (name : String) : List Value → List (List Chunk)
  | [] => []
  | v :: vs => sections name true v :: listSections name vs

end

/-- Prints a table. -/
def write : Printer := fun entries => .ofChunks (sections "" false (.table entries))

end FileTags.Toml
