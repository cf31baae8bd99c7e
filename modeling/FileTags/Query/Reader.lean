import FileTags.Query.Expr
import FileTags.Query.Token
/-! # Reading a query

"Both" binds tighter than "either", both lean to the left, and parentheses may be nested up to
`maxNesting` deep.  The reader takes the tokens one by one.  At each level of parentheses it keeps
the alternatives read so far and the factors of the last one; after an operand, the next token
says where it goes.  The first token that cannot be taken is the one that the error names.
-/
namespace FileTags.Query

/-- The most levels of parentheses. -/
def maxNesting : Nat := 64

/-- What is wrong with a query. -/
inductive Reason where
  | unexpectedEnd
  | unexpectedToken
  | expectedClosing
  | nestedTooDeeply
  /-- A reason in the words of whoever reports it. -/
  | stated (text : String)
  deriving DecidableEq, Repr

/-- What is wrong with a query and where: at a token, or at the end. -/
structure Malformed where
  reason : Reason
  position : Int
  token : Option String
  deriving DecidableEq, Repr

/-- What a level of parentheses holds so far: the alternatives before the last "either", and the
factors before the last "both" after it. -/
structure Level where
  alternatives : Option Expr
  factors : Option Expr
  deriving DecidableEq, Repr

namespace Level

/-- A level that holds nothing. -/
def empty : Level := ⟨none, none⟩

/-- Joins an expression to those before it, if there are any. -/
def joinOnto (op : Connective) (before : Option Expr) (e : Expr) : Expr :=
  match before with
  | some b => .join op b e
  | none => e

/-- The factors, with an operand as the last. -/
def product (l : Level) (operand : Expr) : Expr := joinOnto .both l.factors operand

/-- All of the level, with an operand as the last. -/
def whole (l : Level) (operand : Expr) : Expr := joinOnto .either l.alternatives (l.product operand)

end Level

/-- How far the reader is: the levels that enclose this one, innermost first, this level, and the
operand just read, if the next token is to follow an operand. -/
structure Reader where
  outer : List Level
  level : Level
  operand : Option Expr
  deriving DecidableEq, Repr

namespace Reader

/-- The start of a query. -/
def start : Reader := ⟨[], .empty, none⟩

/-- An error at a token. -/
def refuse (reason : Reason) (t : Token) : Malformed := ⟨reason, t.position, some t.symbol.text⟩

/-- Takes a token where an operand must start. -/
def beforeOperand (r : Reader) (t : Token) : Except Malformed Reader :=
  match t.symbol with
  | .name tag => .ok { r with operand := some (.tag tag) }
  | .opening =>
    if maxNesting ≤ r.outer.length then .error (refuse .nestedTooDeeply t)
    else .ok ⟨r.level :: r.outer, .empty, none⟩
  | _ => .error (refuse .unexpectedToken t)

/-- Takes a token after an operand. -/
def afterOperand (r : Reader) (e : Expr) (t : Token) : Except Malformed Reader :=
  match t.symbol, r.outer with
  | .both, _ =>
    .ok { r with level := ⟨r.level.alternatives, some (r.level.product e)⟩, operand := none }
  | .either, _ => .ok { r with level := ⟨some (r.level.whole e), none⟩, operand := none }
  | .closing, l :: outer => .ok ⟨outer, l, some (r.level.whole e)⟩
  | _, [] => .error (refuse .unexpectedToken t)
  | _, _ :: _ => .error (refuse .expectedClosing t)

/-- Takes a token. -/
def step (r : Reader) (t : Token) : Except Malformed Reader :=
  match r.operand with
  | none => r.beforeOperand t
  | some e => r.afterOperand e t

/-- The expression of a query that ends here, at the given position. -/
def finish (r : Reader) (position : Nat) : Except Malformed Expr :=
  match r.operand, r.outer with
  | none, _ => .error ⟨.unexpectedEnd, position, none⟩
  | some e, [] => .ok (r.level.whole e)
  | some _, _ :: _ => .error ⟨.expectedClosing, position, none⟩

/-- Takes the tokens in order up to the end of the query. -/
def run (r : Reader) (length : Nat) : List Token → Except Malformed Expr
  | [] => r.finish length
  | t :: rest => do (← r.step t).run length rest

end Reader

/-- The expression that a query stands for. -/
def parse (query : String) : Except Malformed Expr :=
  Reader.start.run query.length (tokens query)

end FileTags.Query
