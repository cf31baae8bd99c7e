import FileTags.Decimal.Numeral
import FileTags.Text.Hex
import FileTags.Value
/-! # Plain values of a configuration

Texts in four forms (with and without escapes, on one line and on several), numbers, truth values,
dates and times.  Each reader takes what it can from the front of a text and gives back what
follows.
-/
namespace FileTags.Toml

open Decimal (Binary64)

/-- A blank within a line. -/
def isSpace (c : Char) : Bool := c = ' ' || c = '\t'

/-- A blank or a line end. -/
def isGap (c : Char) : Bool := isSpace c || c = '\n'

/-- A control that cannot stand in a line. -/
def isIllegal (c : Char) : Bool := (c.toNat < 0x20 && c ≠ '\t') || c.toNat = 0x7F

/-- A control that cannot stand in a text, which may go over lines or not. -/
def isIllegalIn (multiline : Bool) (c : Char) : Bool := isIllegal c && !(multiline && c = '\n')

/-- The character that a letter after a backslash stands for. -/
def escaped? : Char → Option Char
  | 'b' => some '\x08'
  | 't' => some '\t'
  | 'n' => some '\n'
  | 'f' => some '\x0c'
  | 'r' => some '\r'
  | '"' => some '"'
  | '\\' => some '\\'
  | _ => none

/-- The character of a number in hexadecimal digits; surrogates are none. -/
def scalar? (digits : List Char) : Option Char := do
  let n ← Text.hexNumber? digits
  if n < 0xD800 ∨ (0xE000 ≤ n ∧ n < 0x110000) then some (Char.ofNat n) else none

/-- What is passed over inside a text: nothing, the blanks between a backslash and the line end
after it, or all blanks and line ends after that. -/
inductive Skipping where
  | nothing
  | toLineEnd
  | gaps
  deriving DecidableEq, Repr

/-- The characters of a text with escapes, up to its closing quotes. -/
def basicChars (multiline : Bool) (skipping : Skipping) :
    List Char → Option (List Char × List Char)
  | [] => none
  | c :: rest =>
    let goOn (c : Char) (more : Option (List Char × List Char)) :=
      more.map fun found => (c :: found.1, found.2)
    if skipping = .toLineEnd then
      if isSpace c then basicChars multiline .toLineEnd rest
      else if c = '\n' then basicChars multiline .gaps rest
      else none
    else if skipping = .gaps && isGap c then basicChars multiline .gaps rest
    else if c = '"' then
      if multiline then
        match rest with
        | '"' :: '"' :: after => some ([], after)
        | _ => goOn c (basicChars multiline .nothing rest)
      else some ([], rest)
    else if c = '\\' then
      match rest with
      | 'u' :: a :: b :: c :: d :: after =>
        (scalar? [a, b, c, d]).bind fun meant => goOn meant (basicChars multiline .nothing after)
      | 'U' :: a :: b :: c :: d :: e :: f :: g :: h :: after =>
        (scalar? [a, b, c, d, e, f, g, h]).bind fun meant =>
          goOn meant (basicChars multiline .nothing after)
      | e :: after =>
        if multiline && isSpace e then basicChars multiline .toLineEnd after
        else if multiline && e = '\n' then basicChars multiline .gaps after
        else (escaped? e).bind fun meant => goOn meant (basicChars multiline .nothing after)
      | [] => none
    else if isIllegalIn multiline c then none
    else goOn c (basicChars multiline .nothing rest)

/-- The characters of a text without escapes, up to its closing quotes. -/
def literalChars (multiline : Bool) : List Char → Option (List Char × List Char)
  | [] => none
  | c :: rest =>
    if c = '\'' then
      if multiline then
        match rest with
        | '\'' :: '\'' :: after => some ([], after)
        | _ => (literalChars multiline rest).map fun found => (c :: found.1, found.2)
      else some ([], rest)
    else if isIllegalIn multiline c then none
    else (literalChars multiline rest).map fun found => (c :: found.1, found.2)

/-- Up to two more quotes right after the closing ones belong to the text. -/
def takeExtraQuotes (mark : Char) (found : List Char × List Char) : List Char × List Char :=
  let extra := (found.2.take 2).takeWhile (· == mark)
  (found.1 ++ extra, found.2.drop extra.length)

/-- A line end right after the opening quotes is no part of the text. -/
def dropFirstLineEnd : List Char → List Char
  | '\n' :: rest => rest
  | cs => cs

/-- The characters of a text at the front. -/
def textChars? : List Char → Option (List Char × List Char)
  | '"' :: '"' :: '"' :: rest =>
    (basicChars true .nothing (dropFirstLineEnd rest)).map (takeExtraQuotes '"')
  | '"' :: rest => basicChars false .nothing rest
  | '\'' :: '\'' :: '\'' :: rest =>
    (literalChars true (dropFirstLineEnd rest)).map (takeExtraQuotes '\'')
  | '\'' :: rest => literalChars false rest
  | _ => none

/-- A text at the front. -/
def text? (cs : List Char) : Option (String × List Char) :=
  (textChars? cs).map fun found => (String.ofList found.1, found.2)

/-! ## Numbers -/

/-- Digits after a first one; single underscores may stand between them. -/
def moreDigits (isDigit : Char → Bool) : List Char → List Char × List Char
  | [] => ([], [])
  | '_' :: c :: rest =>
    if isDigit c then
      let found := moreDigits isDigit rest
      (c :: found.1, found.2)
    else ([], '_' :: c :: rest)
  | c :: rest =>
    if isDigit c then
      let found := moreDigits isDigit rest
      (c :: found.1, found.2)
    else ([], c :: rest)

/-- A run of at least one digit. -/
def digits? (isDigit : Char → Bool) : List Char → Option (List Char × List Char)
  | c :: rest =>
    if isDigit c then
      let found := moreDigits isDigit rest
      some (c :: found.1, found.2)
    else none
  | [] => none

/-- The number of digits in a base of at most sixteen. -/
def inBase (base : Nat) (digits : List Char) : Int :=
  digits.foldl (fun n c => base * n + ((Text.hexValue? c).getD 0 : Nat)) (0 : Int)

/-- Whether a character is a digit of a base of at most sixteen. -/
def isDigitIn (base : Nat) (c : Char) : Bool :=
  match Text.hexValue? c with
  | some n => n < base
  | none => false

/-- A whole number with the letter of its base in front. -/
def based? : List Char → Option (Value × List Char)
  | '0' :: letter :: rest =>
    let base :=
      if letter = 'x' then 16 else if letter = 'o' then 8 else if letter = 'b' then 2 else 0
    (digits? (isDigitIn base) rest).map fun found => (.int (inBase base found.1), found.2)
  | _ => none

/-- A sign at the front, and whether it is a minus. -/
def sign : List Char → Bool × List Char
  | '-' :: rest => (true, rest)
  | '+' :: rest => (false, rest)
  | cs => (false, cs)

/-- The digits before the point: no zero in front. -/
def wholePart? : List Char → Option (List Char × List Char)
  | '0' :: rest => some (['0'], rest)
  | cs => digits? Char.isDigit cs

/-- The digits after the point, if there is one with digits. -/
def fraction? : List Char → Option (List Char × List Char)
  | '.' :: rest => digits? Char.isDigit rest
  | _ => none

/-- The exponent of ten, if there is one. -/
def exponent? : List Char → Option (Int × List Char)
  | e :: rest =>
    if e = 'e' ∨ e = 'E' then
      let (negative, rest) := sign rest
      (digits? Char.isDigit rest).map fun found =>
        let size : Int := Decimal.digitsValue found.1
        (if negative then -size else size, found.2)
    else none
  | [] => none

/-- A decimal number at the front, whole or floating. -/
def decimal? (cs : List Char) : Except ReadFault (Option (Value × List Char)) :=
  let (negative, unsigned) := sign cs
  match wholePart? unsigned with
  | none => .ok none
  | some (whole, rest) =>
    let fraction := fraction? rest
    let afterFraction := (fraction.map Prod.snd).getD rest
    let exponent := exponent? afterFraction
    if fraction.isNone && exponent.isNone then do
      return some (.int (← Decimal.wholeNumber negative whole), rest)
    else
      let digits := (fraction.map Prod.fst).getD []
      let scale := (exponent.map Prod.fst).getD 0 - digits.length
      let x := Binary64.ofDecimal negative (Decimal.digitsValue (whole ++ digits)) scale
      .ok (some (.float x, (exponent.map Prod.snd).getD afterFraction))

/-- What follows a word at the front. -/
def afterWord? : List Char → List Char → Option (List Char)
  | [], cs => some cs
  | w :: ws, c :: cs => if w = c then afterWord? ws cs else none
  | _ :: _, [] => none

/-- The words that stand for values. -/
def words : List (String × Value) :=
  [("true", .bool true), ("false", .bool false),
   ("inf", .float (Binary64.infinity false)), ("+inf", .float (Binary64.infinity false)),
   ("-inf", .float (Binary64.infinity true)),
   ("nan", .float Binary64.nan), ("+nan", .float Binary64.nan), ("-nan", .float Binary64.nan)]

/-- A word at the front. -/
def word? (cs : List Char) : Option (Value × List Char) :=
  words.findSome? fun (word, v) => (afterWord? word.toList cs).map fun rest => (v, rest)

/-! ## Dates and times -/

/-- A number of exactly so many digits. -/
def fixed? (width : Nat) (cs : List Char) : Option (Nat × List Char) :=
  let digits := cs.take width
  if digits.length = width ∧ digits.all Char.isDigit then
    some (Decimal.digitsValue digits, cs.drop width)
  else none

/-- Passes over a character. -/
def expect? (c : Char) : List Char → Option (List Char)
  | d :: rest => if c = d then some rest else none
  | [] => none

/-- The millionths of a second after a point; further digits are dropped. -/
def micro? : List Char → Option (Nat × List Char)
  | '.' :: rest =>
    let digits := rest.takeWhile Char.isDigit
    if digits.isEmpty then none
    else
      let six := (digits ++ List.replicate 6 '0').take 6
      some (Decimal.digitsValue six, rest.dropWhile Char.isDigit)
  | _ => none

/-- A time of day. -/
def clock? (cs : List Char) : Option (Clock × List Char) := do
  let (hour, cs) ← fixed? 2 cs
  let (minute, cs) ← fixed? 2 (← expect? ':' cs)
  let (second, cs) ← fixed? 2 (← expect? ':' cs)
  let c : Clock := ⟨hour, minute, second, ((micro? cs).map Prod.fst).getD 0⟩
  if c.isValid then some (c, ((micro? cs).map Prod.snd).getD cs) else none

/-- A distance from universal time. -/
def offset? : List Char → Option (Int × List Char)
  | 'Z' :: rest => some (0, rest)
  | 'z' :: rest => some (0, rest)
  | c :: rest =>
    if c = '+' ∨ c = '-' then do
      let (hour, rest) ← fixed? 2 rest
      let (minute, rest) ← fixed? 2 (← expect? ':' rest)
      let minutes : Int := hour * 60 + minute
      if hour < 24 ∧ minute < 60 then some (if c = '-' then -minutes else minutes, rest) else none
    else none
  | [] => none

/-- A day of the calendar. -/
def day? (cs : List Char) : Option (Day × List Char) := do
  let (year, cs) ← fixed? 4 cs
  let (month, cs) ← fixed? 2 (← expect? '-' cs)
  let (day, cs) ← fixed? 2 (← expect? '-' cs)
  if (⟨year, month, day⟩ : Day).isValid then some (⟨year, month, day⟩, cs) else none

/-- The time after a day, if a letter or a blank and a time follow. -/
def clockAfterDay? : List Char → Option (Clock × List Char)
  | c :: rest => if c = 'T' ∨ c = 't' ∨ c = ' ' then clock? rest else none
  | [] => none

/-- A date, a time, or both. -/
def moment? (cs : List Char) : Option (Moment × List Char) :=
  match day? cs with
  | some (d, rest) =>
    match clockAfterDay? rest with
    | some (c, rest) =>
      match offset? rest with
      | some (minutes, rest) => some (.both d c (some minutes), rest)
      | none => some (.both d c none, rest)
    | none => some (.day d, rest)
  | none => (clock? cs).map fun found => (.clock found.1, found.2)

/-- A plain value at the front. -/
def plain (cs : List Char) : Except ReadFault (Value × List Char) :=
  match text? cs with
  | some (s, rest) => .ok (.text s, rest)
  | none =>
    match moment? cs with
    | some (m, rest) => .ok (.moment m, rest)
    | none =>
      match based? cs with
      | some found => .ok found
      | none => do
        match ← decimal? cs with
        | some found => return found
        | none =>
          match word? cs with
          | some found => return found
          | none => throw .malformed

end FileTags.Toml
