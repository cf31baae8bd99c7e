import FileTags.Failure
import FileTags.Text.Pieces
/-! # Tags

A tag is a name that a query can name: one to `maxLength` characters, none of them blank or special
in a query.  Tags come in from outside as values, in collections that may hold anything; a
collection is accepted as a whole or refused with all its entries that are no tags.  Accepted tags
are kept once each, in the order in which they first came.
-/
namespace FileTags.Tag

/-- The most characters of a tag. -/
def maxLength : Nat := 256

/-- The characters that structure a query, so that a tag with one of them could not be named. -/
def reserved : List Char := ['&', '|', '(', ')']

/-- A character that no tag contains. -/
def isForbidden (c : Char) : Bool := Text.isBlank c || reserved.contains c

/-- Whether a text is a tag. -/
def isName (s : String) : Bool :=
  !s.isEmpty && s.length ≤ maxLength && !s.toList.any isForbidden

/-- Whether a value is a tag. -/
def isValid : Value → Bool
  | .text s => isName s
  | _ => false

/-- The values without those that are the same as an earlier one. -/
def dedupeBy {α : Type} (same : α → α → Bool) : List α → List α
  | [] => []
  | a :: rest => a :: (dedupeBy same rest).filter fun b => !same a b

/-- The first occurrences of the values of a list, all of which can be members of a set. -/
def dedupe (vs : List Value) : Except Failure (List Value) :=
  if vs.all Value.isAtomic then .ok (dedupeBy Value.same vs) else .error .wrongKind

/-- The members of a value that is gone through one by one: the items of a list, the keys of a
table, the characters of a text. -/
def members : Value → Except Failure (List Value)
  | .list items => .ok items
  | .table entries => .ok (entries.map fun e => .text e.1)
  | .text s => .ok (s.toList.map fun c => .text (String.singleton c))
  | _ => .error .wrongKind

/-- Refuses a text, whose characters would be taken for the tags. -/
def requireCollection : Value → Except Failure Unit
  | .text s => .error (.bareTags s)
  | _ => .ok ()

/-- The entries of a collection of tags. -/
def collection (v : Value) : Except Failure (List Value) := do
  requireCollection v
  members v

/-- The failure for entries that are no tags, which names them all if they can be shown. -/
def refusal (invalid : List Value) : Failure := .showing (.list invalid) (.invalidTags invalid)

/-- Checks that all entries are tags, and keeps each once. -/
def validateAll (entries : List Value) : Except Failure (List Value) :=
  let invalid := entries.filter fun v => !isValid v
  if invalid.isEmpty then dedupe entries else .error (refusal invalid)

/-- Checks a collection of tags. -/
def validate (v : Value) : Except Failure (List Value) := do validateAll (← collection v)

/-- The entries of a text that lists tags between commas: without the blanks around them, and
without those that are blank.  Whether they are tags is not checked. -/
def split (text : String) : List String :=
  let pieces := (Text.pieces ',' text.toList).map Text.trim
  (pieces.filter fun piece => !piece.isEmpty).map String.ofList

end FileTags.Tag
