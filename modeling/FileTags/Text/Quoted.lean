import FileTags.Text.Hex
import FileTags.Text.Printable
/-! # Quoted text

A text shown inside a message stands in quotes, so that blanks and controls in it can be seen.
Single quotes are used unless the text holds a single quote and no double quote.  A backslash and
the quote in use are written after a backslash; so are line feed, carriage return and tab, by
their letters; any other character that is not printable is written by its number.
-/
namespace FileTags.Text

/-- The quote that encloses a text: single, unless that needs an escape and double does not. -/
def quoteFor (cs : List Char) : Char :=
  if cs.contains '\'' && !cs.contains '"' then '"' else '\''

/-- A character that is not printable, by its number: two, four or eight digits, as it needs. -/
def escapeByNumber (c : Char) : List Char :=
  if c.toNat < 0x100 then '\\' :: 'x' :: hexLower 2 c.toNat
  else if c.toNat < 0x10000 then '\\' :: 'u' :: hexLower 4 c.toNat
  else '\\' :: 'U' :: hexLower 8 c.toNat

/-- How one character stands between the given quotes. -/
def quoteChar (mark c : Char) : List Char :=
  if c = mark || c = '\\' then ['\\', c]
  else if c = '\n' then ['\\', 'n']
  else if c = '\r' then ['\\', 'r']
  else if c = '\t' then ['\\', 't']
  else if isPrintable c then [c]
  else escapeByNumber c

/-- The characters of a text between quotes. -/
def quoteChars (cs : List Char) : List Char :=
  let mark := quoteFor cs
  mark :: cs.flatMap (quoteChar mark) ++ [mark]

/-- The text between quotes, as messages show it. -/
def quoted (s : String) : String := String.ofList (quoteChars s.toList)

end FileTags.Text
