import FileTags.Toml.Scalar
/-! # Reading a configuration

A configuration is a run of statements, one a line: headers that open a table, headers that add a
table to a list, and keys with values.  Tables may be opened in any order, but each only once; a
value once given is not changed; what a list or a table in braces holds cannot be added to; and a
table that dotted keys have made can be added to only in the section that made it.
-/
namespace FileTags.Toml

/-- The names on the way to a table or a value. -/
abbrev Key := List String

/-- The entries of a table. -/
abbrev Fields := List (String × Value)

/-! ## Values -/

/-- Passes over a comment at the front; nothing if it holds an illegal control. -/
def skipComment (cs : List Char) : Option (List Char) :=
  match cs with
  | '#' :: rest =>
    if (rest.takeWhile (· != '\n')).any isIllegal then none else some (rest.dropWhile (· != '\n'))
  | _ => some cs

/-- Passes over blanks, line ends and comments; at most `fuel` comments. -/
def skipGaps : Nat → List Char → Option (List Char)
  | 0, cs => some cs
  | fuel + 1, cs =>
    match cs.dropWhile isGap with
    | '#' :: rest => (skipComment ('#' :: rest)).bind (skipGaps fuel)
    | rest => some rest

/-- A character of a key without quotes. -/
def isKeyChar (c : Char) : Bool := c.isAlphanum || c = '_' || c = '-'

/-- One name of a key. -/
def keyPart? (cs : List Char) : Option (String × List Char) :=
  match cs with
  | '"' :: rest =>
    (basicChars false .nothing rest).map fun found => (String.ofList found.1, found.2)
  | '\'' :: rest => (literalChars false rest).map fun found => (String.ofList found.1, found.2)
  | _ =>
    let name := cs.takeWhile isKeyChar
    if name.isEmpty then none else some (String.ofList name, cs.dropWhile isKeyChar)

/-- The names of a key between dots, and what follows the blanks after it. -/
def key? : Nat → List Char → Option (Key × List Char)
  | 0, _ => none
  | fuel + 1, cs => do
    let (part, rest) ← keyPart? cs
    match rest.dropWhile isSpace with
    | '.' :: more => do
      let (parts, rest) ← key? fuel (more.dropWhile isSpace)
      some (part :: parts, rest)
    | rest => some ([part], rest)

/-- Changes the entries of the table at a key, which is made if it is not there.  On the way a list
stands for its last table, if lists may be entered; nothing if something else is in the way. -/
def changeAt (enterLists : Bool) (change : Fields → Option Fields) : Key → Fields → Option Fields
  | [], es => change es
  | k :: ks, es =>
    match Entries.find? es k with
    | none => (changeAt enterLists change ks []).map fun sub => Entries.put es k (.table sub)
    | some (.table sub) =>
      (changeAt enterLists change ks sub).map fun sub => Entries.put es k (.table sub)
    | some (.list tables) =>
      match enterLists, tables.getLast? with
      | true, some (.table sub) =>
        (changeAt enterLists change ks sub).map fun sub =>
          Entries.put es k (.list (tables.dropLast ++ [.table sub]))
      | _, _ => none
    | some _ => none

/-- Puts a value under a name that has none. -/
def putNew (name : String) (v : Value) (es : Fields) : Option Fields :=
  if Entries.has es name then none else some (Entries.put es name v)

/-- Whether one of the keys is this key or leads to it. -/
def covers (keys : List Key) (key : Key) : Bool := keys.any fun k => k.isPrefixOf key

/-- A list or a table, whose inside cannot be changed any more. -/
def isClosed : Value → Bool
  | .list _ => true
  | .table _ => true
  | _ => false

/-- The room for lists and tables inside one another. -/
def fullRoom : Nat := 982

/-- How much room a list or a table takes. -/
def roomOf : Container → Nat
  | .list => 2
  | .table => 3

/-- The room that is left inside a list or a table. -/
def roomFor (c : Container) (room : Nat) : Except ReadFault Nat :=
  if room < roomOf c then .error (.tooDeep none) else .ok (room - roomOf c)

mutual

/-- A value at the front, if there is room for the lists and tables in it. -/
def value : Nat → Nat → List Char → Except ReadFault (Value × List Char)
  | 0, _, _ => .error .malformed
  | fuel + 1, room, cs =>
    match cs with
    | '[' :: rest => do
      let room ← roomFor .list room
      match skipGaps rest.length rest with
      | some (']' :: rest) => return (.list [], rest)
      | some rest => items fuel room [] rest
      | none => throw .malformed
    | '\x7b' :: rest => do
      let room ← roomFor .table room
      match rest.dropWhile isSpace with
      | '\x7d' :: rest => return (.table [], rest)
      | rest => fields fuel room [] [] rest
    | _ => plain cs

/-- The items of a list from a value on, after those already read. -/
def items : Nat → Nat → List Value → List Char → Except ReadFault (Value × List Char)
  | 0, _, _, _ => .error .malformed
  | fuel + 1, room, done, cs => do
    let (v, rest) ← value fuel room cs
    match skipGaps rest.length rest with
    | some (']' :: rest) => return (.list (done ++ [v]), rest)
    | some (',' :: rest) =>
      match skipGaps rest.length rest with
      | some (']' :: rest) => return (.list (done ++ [v]), rest)
      | some rest => items fuel room (done ++ [v]) rest
      | none => throw .malformed
    | _ => throw .malformed

/-- The entries of a table in braces from a key on, after those already read, of which those at
the closed keys cannot be added to. -/
def fields : Nat → Nat → Fields → List Key → List Char → Except ReadFault (Value × List Char)
  | 0, _, _, _, _ => .error .malformed
  | fuel + 1, room, done, closed, cs =>
    match key? cs.length cs with
    | some (key, '=' :: rest) => do
      let (v, rest) ← value fuel room (rest.dropWhile isSpace)
      if covers closed key then throw .malformed
      else
        match changeAt false (putNew (key.getLastD "") v) key.dropLast done with
        | none => throw .malformed
        | some done =>
          match rest.dropWhile isSpace with
          | '\x7d' :: rest => return (.table done, rest)
          | ',' :: rest =>
            let closed := if isClosed v then key :: closed else closed
            fields fuel room done closed (rest.dropWhile isSpace)
          | _ => throw .malformed
    | _ => .error .malformed

end

/-! ## Statements -/

/-- What has been read: the document, the keys whose tables are declared, the keys whose inside is
closed, the keys that the dotted keys of this section will declare at its end, and the key of the
section. -/
structure Document where
  root : Fields
  declared : List Key
  closed : List Key
  pending : List Key
  here : Key

namespace Document

/-- The empty document. -/
def empty : Document := ⟨[], [], [], [], []⟩

/-- The end of a section: its dotted keys declare their tables. -/
def endSection (d : Document) : Document :=
  { d with declared := d.pending ++ d.declared, pending := [] }

/-- Opens the table at a key. -/
def openTable (d : Document) (key : Key) : Option Document := do
  if d.declared.contains key || covers d.closed key then none
  else
    let root ← changeAt true some key d.root
    some { d with root, declared := key :: d.declared, here := key }

/-- Adds an empty table to a list of tables. -/
def appendTable (name : String) (es : Fields) : Option Fields :=
  match Entries.find? es name with
  | none => some (Entries.put es name (.list [.table []]))
  | some (.list tables) => some (Entries.put es name (.list (tables ++ [.table []])))
  | some _ => none

/-- Adds a table to the list at a key and opens it.  What was declared below the key belongs to
the tables before it and is forgotten. -/
def openNext (d : Document) (key : Key) : Option Document := do
  if covers d.closed key then none
  else
    let root ← changeAt true (appendTable (key.getLastD "")) key.dropLast d.root
    let keep (k : Key) : Bool := !key.isPrefixOf k
    some { d with root, declared := key :: d.declared.filter keep, closed := d.closed.filter keep,
                  here := key }

/-- The keys of the tables that a dotted key passes through. -/
def onTheWay (base key : Key) : List Key :=
  (List.range (key.length - 1)).map fun i => base ++ key.take (i + 1)

/-- Gives a key a value. -/
def assign (d : Document) (key : Key) (v : Value) : Option Document := do
  let way := onTheWay d.here key
  if way.any d.declared.contains then none
  else
    let place := d.here ++ key.dropLast
    if covers d.closed place then none
    else
      let root ← changeAt true (putNew (key.getLastD "") v) place d.root
      let closed := if isClosed v then (d.here ++ key) :: d.closed else d.closed
      some { d with root, closed, pending := way ++ d.pending }

end Document

/-- A result, if there is one; the text is not of the form if there is none. -/
def orMalformed {α : Type} : Option α → Except ReadFault α
  | some a => .ok a
  | none => .error .malformed

/-- Takes a statement at the front, which starts with no blank. -/
def statement (d : Document) (cs : List Char) : Except ReadFault (Document × List Char) :=
  match cs with
  | '[' :: '[' :: rest => do
    let rest := rest.dropWhile isSpace
    match key? rest.length rest with
    | some (key, ']' :: ']' :: rest) => return (← orMalformed (d.endSection.openNext key), rest)
    | _ => throw .malformed
  | '[' :: rest => do
    let rest := rest.dropWhile isSpace
    match key? rest.length rest with
    | some (key, ']' :: rest) => return (← orMalformed (d.endSection.openTable key), rest)
    | _ => throw .malformed
  | '#' :: _ => .ok (d, cs)
  | _ =>
    match key? cs.length cs with
    | some (key, '=' :: rest) => do
      let (v, rest) ← value (2 * rest.length + 2) fullRoom (rest.dropWhile isSpace)
      return (← orMalformed (d.assign key v), rest)
    | _ => .error .malformed

/-- Takes the statements of at most `fuel` lines. -/
def statements : Nat → Document → List Char → Except ReadFault Document
  | 0, d, _ => .ok d
  | fuel + 1, d, cs =>
    match cs.dropWhile isSpace with
    | [] => .ok d
    | '\n' :: rest => statements fuel d rest
    | cs => do
      let (d, rest) ← statement d cs
      match skipComment (rest.dropWhile isSpace) with
      | some [] => return d
      | some ('\n' :: rest) => statements fuel d rest
      | _ => throw .malformed

/-- The text with each carriage return before a line feed taken out. -/
def joinLineEnds : List Char → List Char
  | '\r' :: '\n' :: rest => '\n' :: joinLineEnds rest
  | c :: rest => c :: joinLineEnds rest
  | [] => []

/-- The table that a text stands for. -/
def read (text : String) : Except ReadFault Fields := do
  let cs := joinLineEnds text.toList
  return (← statements (cs.length + 1) .empty cs).root

end FileTags.Toml
