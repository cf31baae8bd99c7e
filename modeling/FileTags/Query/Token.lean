import FileTags.Text.Blank
/-! # Tokens of a query

A query is made of parentheses, the two connectives and tag names.  A name is the longest run of
characters that are neither blank nor one of the four special ones; blanks only separate.  Each
token keeps the position of its first character, counted in characters from the start.
-/
namespace FileTags.Query

open Text (isBlank)

/-- What a token is. -/
inductive Symbol where
  | opening
  | closing
  | both
  | either
  | name (tag : String)
  deriving DecidableEq, Repr

namespace Symbol

/-- The symbol that a special character is. -/
def ofChar? : Char → Option Symbol
  | '(' => some .opening
  | ')' => some .closing
  | '&' => some .both
  | '|' => some .either
  | _ => none

/-- The characters of a symbol, as they stand in the query. -/
def text : Symbol → String
  | .opening => "("
  | .closing => ")"
  | .both => "&"
  | .either => "|"
  | .name tag => tag

/-- The name of a symbol's kind: a special character names itself. -/
def kind : Symbol → String
  | .name _ => "tag"
  | s => s.text

end Symbol

/-- A character that has a meaning of its own in a query. -/
def isSpecial (c : Char) : Bool := (Symbol.ofChar? c).isSome

/-- A character that can be part of a name. -/
def isNameChar (c : Char) : Bool := !isBlank c && !isSpecial c

/-- A symbol and where it starts. -/
structure Token where
  symbol : Symbol
  position : Nat
  deriving DecidableEq, Repr

/-- The tokens of the characters from a position on. -/
def scan (position : Nat) (cs : List Char) : List Token :=
  match cs with
  | [] => []
  | c :: rest =>
    match Symbol.ofChar? c with
    | some s => ⟨s, position⟩ :: scan (position + 1) rest
    | none =>
      if isBlank c then scan (position + 1) rest
      else
        let more := rest.takeWhile isNameChar
        ⟨.name (String.ofList (c :: more)), position⟩
          :: scan (position + 1 + more.length) (rest.dropWhile isNameChar)
termination_by cs.length
decreasing_by
  all_goals simp only [List.length_cons]
  · omega
  · omega
  · have := (List.dropWhile_sublist isNameChar (l := rest)).length_le
    omega

/-- The tokens of a query. -/
def tokens (query : String) : List Token := scan 0 query.toList

end FileTags.Query
