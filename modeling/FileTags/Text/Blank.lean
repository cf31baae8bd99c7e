/-! # Blank characters

A blank separates words: the ASCII space and controls that move the cursor, the four
information separators, and the spaces and line ends of Unicode.  Trimming takes the blanks off
both ends of a text and nothing else.
-/
namespace FileTags.Text

/-- The code points that count as blank, as closed ranges in increasing order. -/
def blankRanges : List (Nat × Nat) :=
  [(0x09, 0x0D), (0x1C, 0x20), (0x85, 0x85), (0xA0, 0xA0), (0x1680, 0x1680), (0x2000, 0x200A),
   (0x2028, 0x2029), (0x202F, 0x202F), (0x205F, 0x205F), (0x3000, 0x3000)]

/-- Whether a character separates words. -/
def isBlank (c : Char) : Bool :=
  blankRanges.any fun range => range.1 ≤ c.toNat && c.toNat ≤ range.2

/-- The characters between the leading and the trailing blanks. -/
def trim (cs : List Char) : List Char :=
  ((cs.dropWhile isBlank).reverse.dropWhile isBlank).reverse

@[simp] theorem trim_nil : trim [] = [] := rfl

end FileTags.Text
