import FileTags.Json.Token
/-! # Reading a data text

The reader takes the tokens one by one and keeps the lists and tables that are still open on a
stack; the innermost is on top.  A key that comes twice in a table keeps its first place and its
last value.  A text that starts with a byte order mark is refused, and one whose lists and tables
stand inside one another too deeply.

A text between quotes may hold half of a pair of surrogates.  No characters stand for that, so the
reader goes on, for nothing else may be right either, but gives no value at the end.
-/
namespace FileTags.Json

/-- The most lists and tables inside one another. -/
def maxDepth : Nat := 985

/-- A list or a table that is still open, with the members read so far, the last one first. -/
inductive Frame where
  | list (items : List Value)
  | table (entries : List (String × Value)) (key : String)
  deriving Repr

/-- What may come next. -/
inductive Awaiting where
  /-- A value. -/
  | value
  /-- The first item of a list, or its end. -/
  | firstItem
  /-- The first key of a table, or its end. -/
  | firstKey (entries : List (String × Value))
  /-- A key. -/
  | key (entries : List (String × Value))
  /-- The colon after a key. -/
  | colon (entries : List (String × Value)) (key : String)
  /-- What comes after a value: a comma or an end, or nothing at all. -/
  | after (v : Value)
  deriving Repr

/-- How far the reader is. -/
structure Reader where
  stack : List Frame
  awaiting : Awaiting
  deriving Repr

namespace Reader

/-- The start of a text. -/
def start : Reader := ⟨[], .value⟩

/-- The table of the entries read, the last one first. -/
def tableOf (entries : List (String × Value)) : Value := .table (Entries.ofPairs entries.reverse)

/-- Takes a token where a value may start; nothing if none starts with it. -/
def value? (stack : List Frame) : Token → Option Reader
  | .openList => some ⟨stack, .firstItem⟩
  | .openTable => some ⟨stack, .firstKey []⟩
  | .text s => some ⟨stack, .after (.text s)⟩
  | .halfPair => some ⟨stack, .after (.text "")⟩
  | .plain v => some ⟨stack, .after v⟩
  | _ => none

/-- Takes a token after a value; nothing if it does not fit the innermost list or table. -/
def after? (v : Value) : List Frame → Token → Option Reader
  | .list items :: stack, .comma => some ⟨.list (v :: items) :: stack, .value⟩
  | .list items :: stack, .closeList => some ⟨stack, .after (.list (v :: items).reverse)⟩
  | .table entries key :: stack, .comma => some ⟨stack, .key ((key, v) :: entries)⟩
  | .table entries key :: stack, .closeTable => some ⟨stack, .after (tableOf ((key, v) :: entries))⟩
  | _, _ => none

/-- The key that a token is. -/
def key? : Token → Option String
  | .text k => some k
  | .halfPair => some ""
  | _ => none

/-- Takes any token. -/
def step? (r : Reader) (token : Token) : Option Reader :=
  match r.awaiting, token with
  | .value, t => value? r.stack t
  | .firstItem, .closeList => some ⟨r.stack, .after (.list [])⟩
  | .firstItem, t => value? (.list [] :: r.stack) t
  | .firstKey entries, .closeTable => some ⟨r.stack, .after (tableOf entries)⟩
  | .firstKey entries, t => (key? t).map fun k => ⟨r.stack, .colon entries k⟩
  | .key entries, t => (key? t).map fun k => ⟨r.stack, .colon entries k⟩
  | .colon entries k, .colon => some ⟨.table entries k :: r.stack, .value⟩
  | .after v, t => after? v r.stack t
  | _, _ => none

/-- The value of a text whose tokens have all been taken. -/
def finish (r : Reader) : Except ReadFault Value :=
  match r.stack, r.awaiting with
  | [], .after v => .ok v
  | _, _ => .error .malformed

/-- Whether a value may come next. -/
def awaitsValue (r : Reader) : Bool :=
  match r.awaiting with
  | .value => true
  | .firstItem => true
  | _ => false

/-- The list or table that a token opens. -/
def opened? : Token → Option Container
  | .openList => some .list
  | .openTable => some .table
  | _ => none

/-- Whether nothing more can be opened: the stack, and a list before its first item, are full. -/
def isFull (r : Reader) : Bool :=
  match r.awaiting with
  | .firstItem => maxDepth ≤ r.stack.length + 1
  | _ => maxDepth ≤ r.stack.length

/-- What is wrong with a token where a value may come, whatever else is wrong there. -/
def valueFault? (r : Reader) (token : Token) : Option ReadFault :=
  match token with
  | .fault f => some f
  | _ => if r.isFull then (opened? token).map fun c => .tooDeep (some c) else none

/-- Takes the tokens in order, up to the first fault.  Where no value may come, a number with too
many digits is as wrong as any other. -/
def run (r : Reader) : List Token → Except ReadFault Value
  | [] => r.finish
  | token :: rest =>
    match (if r.awaitsValue then r.valueFault? token else none), r.step? token with
    | some fault, _ => .error fault
    | none, some next => next.run rest
    | none, none => .error .malformed

end Reader

/-- Whether a token is a text that no characters make. -/
def Token.isHalfPair : Token → Bool
  | .halfPair => true
  | _ => false

/-- The value that tokens stand for, if characters make all its texts. -/
def ofTokens (tokens : List Token) : Except ReadFault Value := do
  let v ← Reader.start.run tokens
  if tokens.any Token.isHalfPair then throw .halfPair
  return v

/-- The value that a text stands for. -/
def read (s : String) : Except ReadFault Value :=
  match s.toList with
  | '\uFEFF' :: _ => .error .malformed
  | cs => ofTokens (Token.scan cs)

end FileTags.Json
