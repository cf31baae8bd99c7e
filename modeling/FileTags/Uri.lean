import FileTags.Decimal.Numeral
import FileTags.Failure
import FileTags.Text.Hex
import FileTags.Text.Pieces
import FileTags.Text.Utf8
/-! # URIs

A URI starts with a scheme: a letter and at least one more letter, digit, plus, dot or hyphen, and
a colon.  A slash must follow, unless the scheme is one of a few that name things without a path;
so a drive letter or a name with a colon in it stays a path.  The path of a URI is written byte by
byte, with a percent sign and two digits for every byte that is neither unreserved nor a slash.
-/
namespace FileTags.Uri

/-- A letter of the Latin alphabet. -/
def isLetter (c : Char) : Bool := ('a' ≤ c && c ≤ 'z') || ('A' ≤ c && c ≤ 'Z')

/-- A character of a scheme after the first. -/
def isSchemeChar (c : Char) : Bool :=
  isLetter c || c.isDigit || c == '+' || c == '.' || c == '-'

/-- The schemes that need no path. -/
def opaqueSchemes : List String := ["untitled", "urn", "mailto", "data"]

/-- The scheme at the front of a text, and what follows its colon. -/
def scheme? (cs : List Char) : Option (List Char × List Char) :=
  match cs with
  | c :: rest =>
    let more := rest.takeWhile isSchemeChar
    match rest.dropWhile isSchemeChar with
    | ':' :: after => if isLetter c && !more.isEmpty then some (c :: more, after) else none
    | _ => none
  | [] => none

/-- A scheme in small letters. -/
def lowerScheme (scheme : List Char) : String := String.ofList (scheme.map Char.toLower)

/-- Whether a text is a URI and not a path. -/
def isUri (s : String) : Bool :=
  match scheme? s.toList with
  | some (scheme, after) => after.head? == some '/' || opaqueSchemes.contains (lowerScheme scheme)
  | none => false

/-- A byte that stands for itself in a URI: a letter, a digit, one of four marks, or a slash. -/
def isPlainByte (b : UInt8) : Bool :=
  (0x61 ≤ b && b ≤ 0x7A) || (0x41 ≤ b && b ≤ 0x5A) || (0x30 ≤ b && b ≤ 0x39)
    || b == 0x5F || b == 0x2E || b == 0x2D || b == 0x7E || b == 0x2F

/-- A byte as it stands in a URI. -/
def encodeByte (b : UInt8) : List Char :=
  if isPlainByte b then [Char.ofNat b.toNat] else '%' :: Text.hexUpper 2 b.toNat

/-- A text as it stands in a URI. -/
def encode (cs : List Char) : List Char := (Text.utf8Bytes cs).flatMap encodeByte

/-- The bytes that a run of ASCII characters stands for.  A percent sign without two digits after
it stands for itself. -/
def percentBytes : List Char → List UInt8
  | '%' :: a :: b :: rest =>
    match Text.hexValue? a, Text.hexValue? b with
    | some high, some low => UInt8.ofNat (16 * high + low) :: percentBytes rest
    | _, _ => 0x25 :: percentBytes (a :: b :: rest)
  | c :: rest => UInt8.ofNat c.toNat :: percentBytes rest
  | [] => []

/-- An ASCII character. -/
def isAscii (c : Char) : Bool := c.toNat < 0x80

/-- The text that a part of a URI stands for.  Bytes are put together within runs of ASCII
characters; other characters stand for themselves. -/
def decode (cs : List Char) : List Char :=
  match cs with
  | [] => []
  | c :: rest =>
    if isAscii c then
      Text.decodeLossy (percentBytes (c :: rest.takeWhile isAscii))
        ++ decode (rest.dropWhile isAscii)
    else c :: decode rest
termination_by cs.length
decreasing_by
  all_goals simp only [List.length_cons]
  · have := (List.dropWhile_sublist isAscii (l := rest)).length_le
    omega
  · omega

/-! ## The parts of a URI -/

/-- Scheme, authority and path of a URI; a query and a fragment are no part of the path. -/
structure Parts where
  scheme : String
  authority : String
  path : List Char
  deriving DecidableEq, Repr

/-- Characters whose compatibility form holds one of the marks that structure a URI. -/
def disguisedMarks : List Nat :=
  [0x2047, 0x2048, 0x2049, 0x2100, 0x2101, 0x2105, 0x2106, 0x2A74, 0xFE13, 0xFE16, 0xFE55, 0xFE56,
   0xFE5F, 0xFE6B, 0xFF03, 0xFF0F, 0xFF1A, 0xFF1F, 0xFF20]

/-- A part of a dotted address: one to three digits, no zero in front, at most 255. -/
def isOctet (cs : List Char) : Bool :=
  !cs.isEmpty && cs.all Char.isDigit && cs.length ≤ 3 && (cs.length == 1 || cs.head? != some '0')
    && Decimal.digitsValue cs ≤ 255

/-- A short address: four parts between dots. -/
def isShortAddress (cs : List Char) : Bool :=
  let parts := Text.pieces '.' cs
  parts.length == 4 && parts.all isOctet

/-- A group of a long address: one to four hexadecimal digits. -/
def isGroup (cs : List Char) : Bool :=
  !cs.isEmpty && cs.length ≤ 4 && cs.all fun c => (Text.hexValue? c).isSome

/-- The groups of a long address between colons: a short address at the end counts as two.  One
gap of two colons may stand for at least one group of zeros. -/
def isLongGroups (parts : List (List Char)) : Bool :=
  let spread := match parts.getLast? with
    | some l =>
      if l.contains '.' then
        if isShortAddress l then parts.dropLast ++ [['0'], ['0']] else [['x']]
      else parts
    | none => parts
  let inner := (spread.drop 1).dropLast
  let gaps := inner.countP List.isEmpty
  let firstEmpty := (spread.headD []).isEmpty
  let lastEmpty := (spread.getLastD []).isEmpty
  if parts.length < 3 || 9 < spread.length || 1 < gaps then false
  else if gaps == 1 then
    let before := inner.takeWhile (fun p => !p.isEmpty)
    let after := (inner.dropWhile (fun p => !p.isEmpty)).drop 1
    let high := if firstEmpty then before else spread.headD [] :: before
    let low := if lastEmpty then after else after ++ [spread.getLastD []]
    (!firstEmpty || before.isEmpty) && (!lastEmpty || after.isEmpty)
      && high.length + low.length < 8 && (high ++ low).all isGroup
  else spread.length == 8 && spread.all isGroup

/-- A long address, with a zone after a percent sign or without. -/
def isLongAddress (cs : List Char) : Bool :=
  let address := cs.takeWhile (· != '%')
  let zone := cs.dropWhile (· != '%')
  !cs.contains '/' && isLongGroups (Text.pieces ':' address)
    && (zone.isEmpty || (1 < zone.length && !(zone.drop 1).contains '%'))

/-- An address of a future kind: a letter, hexadecimal digits, a dot and more. -/
def isFutureAddress (cs : List Char) : Bool :=
  let digits := (cs.drop 1).takeWhile fun c => (Text.hexValue? c).isSome
  match (cs.drop 1).dropWhile fun c => (Text.hexValue? c).isSome with
  | '.' :: rest => !digits.isEmpty && !rest.isEmpty && !rest.contains '\n'
  | _ => false

/-- Checks the host of an authority that has brackets. -/
def checkHost (host : List Char) : Except AuthorityFault Unit :=
  if host.head? = some 'v' then
    if isFutureAddress host then .ok () else .error .futureAddress
  else if isShortAddress host then .error .shortAddressInBrackets
  else if isLongAddress host then .ok ()
  else .error (.notAnAddress (String.ofList host))

/-- The host and port of an authority: what comes after the last name of a user. -/
def hostAndPort (authority : List Char) : List Char :=
  (authority.reverse.takeWhile (· != '@')).reverse

/-- The host of a host and port.  If it is in brackets, nothing may stand before them, and after
them only a port. -/
def hostOf (place : List Char) : Except AuthorityFault (List Char) :=
  match place with
  | '[' :: inside =>
    match (inside.dropWhile (· != ']')).drop 1 with
    | [] => .ok (inside.takeWhile (· != ']'))
    | ':' :: _ => .ok (inside.takeWhile (· != ']'))
    | _ => .error .unbalancedBrackets
  | _ =>
    if place.contains '[' then .error .unbalancedBrackets else .ok (place.takeWhile (· != ':'))

/-- Checks an authority that has brackets, wherever they are: its host must be an address. -/
def checkBrackets (authority : List Char) : Except AuthorityFault Unit :=
  if authority.contains '[' != authority.contains ']' then .error .unbalancedBrackets
  else if authority.contains '[' then hostOf (hostAndPort authority) >>= checkHost
  else .ok ()

/-- Checks that no character of an authority becomes one of the structuring marks. -/
def checkMarks (authority : List Char) : Except AuthorityFault Unit :=
  if authority.any fun c => disguisedMarks.contains c.toNat then
    .error (.changesUnderNormalization (String.ofList authority))
  else .ok ()

/-- A character that ends an authority. -/
def endsAuthority (c : Char) : Bool := c == '/' || c == '?' || c == '#'

/-- Authority and rest of what follows a scheme. -/
def splitAuthority (cs : List Char) : List Char × List Char :=
  match cs with
  | '/' :: '/' :: rest =>
    (rest.takeWhile (!endsAuthority ·), rest.dropWhile (!endsAuthority ·))
  | _ => ([], cs)

/-- The parts of a URI.  Tabs and line ends in it are passed over. -/
def parts (s : String) : Except AuthorityFault Parts := do
  let cs := s.toList.filter fun c => c != '\t' && c != '\r' && c != '\n'
  let (scheme, after) := (scheme? cs).getD ([], cs)
  let (authority, rest) := splitAuthority after
  checkBrackets authority
  checkMarks authority
  return ⟨lowerScheme scheme, String.ofList authority, rest.takeWhile fun c => c != '#' && c != '?'⟩

end FileTags.Uri
