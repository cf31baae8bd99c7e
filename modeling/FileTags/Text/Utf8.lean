/-! # Bytes of a text

The bytes of a character, and the reading of bytes that need not come from a text.  A reader
that must not fail puts the replacement character wherever a run of bytes starts like a character
and does not go on like one; each longest such run gives one replacement.
-/
namespace FileTags.Text

/-- The bytes of a text, one to four for each character. -/
def utf8Bytes (cs : List Char) : List UInt8 := cs.flatMap String.utf8EncodeChar

/-- What stands for bytes that are no character. -/
def replacementChar : Char := '\uFFFD'

/-- The ranges that the bytes after a leading byte must lie in; nothing for a byte that cannot
lead.  The first of them keeps out overlong forms, surrogates and numbers above the last code
point. -/
def followRanges? (lead : UInt8) : Option (List (UInt8 × UInt8)) :=
  if lead < 0x80 then some []
  else if lead < 0xC2 then none
  else if lead < 0xE0 then some [(0x80, 0xBF)]
  else if lead = 0xE0 then some [(0xA0, 0xBF), (0x80, 0xBF)]
  else if lead = 0xED then some [(0x80, 0x9F), (0x80, 0xBF)]
  else if lead < 0xF0 then some [(0x80, 0xBF), (0x80, 0xBF)]
  else if lead = 0xF0 then some [(0x90, 0xBF), (0x80, 0xBF), (0x80, 0xBF)]
  else if lead < 0xF4 then some [(0x80, 0xBF), (0x80, 0xBF), (0x80, 0xBF)]
  else if lead = 0xF4 then some [(0x80, 0x8F), (0x80, 0xBF), (0x80, 0xBF)]
  else none

/-- The bytes at the front that lie in the given ranges, one for one. -/
def takeInRanges : List (UInt8 × UInt8) → List UInt8 → List UInt8
  | range :: ranges, b :: bs =>
    if range.1 ≤ b && b ≤ range.2 then b :: takeInRanges ranges bs else []
  | _, _ => []

/-- The character that a leading byte and its following bytes make. -/
def charOfBytes (lead : UInt8) (following : List UInt8) : Char :=
  let top := match following.length with
    | 0 => lead.toNat
    | 1 => lead.toNat % 32
    | 2 => lead.toNat % 16
    | _ => lead.toNat % 8
  Char.ofNat (following.foldl (fun n b => 64 * n + b.toNat % 64) top)

/-- The text that bytes stand for, with a replacement character for each run that is none. -/
def decodeLossy : List UInt8 → List Char
  | [] => []
  | lead :: bs =>
    match followRanges? lead with
    | none => replacementChar :: decodeLossy bs
    | some ranges =>
      let following := takeInRanges ranges bs
      let c := if following.length = ranges.length then charOfBytes lead following
        else replacementChar
      c :: decodeLossy (bs.drop following.length)
termination_by bytes => bytes.length
decreasing_by all_goals simp +arith

end FileTags.Text
