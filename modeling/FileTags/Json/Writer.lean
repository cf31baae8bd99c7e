import FileTags.Text.Hex
import FileTags.Value
/-! # Writing a data text

Values are written on one line, or with each member on a line of its own, indented by its depth.
Texts are written between double quotes; quotes, backslashes and controls in them are escaped,
and on demand all characters that are not ASCII, by their code units.
-/
namespace FileTags.Json

/-- How a value is laid out. -/
structure Style where
  /-- The blanks for each level of depth; nothing for a single line. -/
  indent : Option Nat
  /-- Whether characters that are not ASCII are escaped. -/
  asciiOnly : Bool
  deriving DecidableEq, Repr

/-- One line, with all characters as they are. -/
def Style.compact : Style := ⟨none, false⟩

/-- One line of ASCII. -/
def Style.compactAscii : Style := ⟨none, true⟩

/-- Lines indented by two, with all characters as they are. -/
def Style.indented : Style := ⟨some 2, false⟩

/-- Lines of ASCII indented by two. -/
def Style.indentedAscii : Style := ⟨some 2, true⟩

/-- A code unit by its four digits. -/
def unitEscape (unit : Nat) : List Char := '\\' :: 'u' :: Text.hexLower 4 unit

/-- A character by its code units: one, or two surrogates. -/
def numberEscape (c : Char) : List Char :=
  if c.toNat < 0x10000 then unitEscape c.toNat
  else
    let n := c.toNat - 0x10000
    unitEscape (0xD800 + n / 0x400) ++ unitEscape (0xDC00 + n % 0x400)

/-- How one character stands in a text. -/
def writeChar (asciiOnly : Bool) (c : Char) : List Char :=
  if c = '"' then ['\\', '"']
  else if c = '\\' then ['\\', '\\']
  else if c = '\n' then ['\\', 'n']
  else if c = '\r' then ['\\', 'r']
  else if c = '\t' then ['\\', 't']
  else if c = '\x08' then ['\\', 'b']
  else if c = '\x0c' then ['\\', 'f']
  else if c.toNat < 0x20 then unitEscape c.toNat
  else if asciiOnly && 0x7F ≤ c.toNat then numberEscape c
  else [c]

/-- A text between quotes. -/
def writeText (asciiOnly : Bool) (s : String) : List Char :=
  '"' :: s.toList.flatMap (writeChar asciiOnly) ++ ['"']

namespace Style

/-- What stands between an opening bracket or a comma and the next member at a depth. -/
def gap (style : Style) (depth : Nat) : List Char :=
  match style.indent with
  | some width => '\n' :: List.replicate (width * depth) ' '
  | none => []

/-- What separates two members. -/
def separator (style : Style) (depth : Nat) : List Char :=
  match style.indent with
  | some _ => ',' :: style.gap depth
  | none => [',', ' ']

/-- Members between brackets; without members, the brackets alone. -/
def enclose (style : Style) (depth : Nat) (opening closing : Char) (members : List (List Char)) :
    List Char :=
  if members.isEmpty then [opening, closing]
  else
    opening :: style.gap (depth + 1) ++ List.intercalate (style.separator (depth + 1)) members
      ++ style.gap depth ++ [closing]

end Style

mutual

/-- The characters of a value at a depth. -/
def writeValue (style : Style) (depth : Nat) : Value → List Char
  | .null => "null".toList
  | .bool b => (if b then "true" else "false").toList
  | .int n => (toString n).toList
  | .float x => (x.render "Infinity" "NaN").toList
  | .text s => writeText style.asciiOnly s
  | .moment m => writeText style.asciiOnly m.toText
  | .list items => style.enclose depth '[' ']' (writeItems style (depth + 1) items)
  | .table entries =>
    style.enclose depth '\x7b' '\x7d' (writeEntries style (depth + 1) entries)

/-- The characters of the items of a list. -/
def writeItems (style : Style) (depth : Nat) : List Value → List (List Char)
  | [] => []
  | v :: vs => writeValue style depth v :: writeItems style depth vs

/-- The characters of the entries of a table. -/
def writeEntries (style : Style) (depth : Nat) : List (String × Value) → List (List Char)
  | [] => []
  | (k, v) :: rest =>
    (writeText style.asciiOnly k ++ ':' :: ' ' :: writeValue style depth v)
      :: writeEntries style depth rest

end

/-- The text of a value. -/
def write (style : Style) (v : Value) : String := String.ofList (writeValue style 0 v)

end FileTags.Json
