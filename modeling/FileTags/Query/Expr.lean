/-! # Query expressions

An expression is a tag name or two expressions joined by "both" or "either".  Long queries make
long chains of one connective that lean to the left, so an expression is read as the list of the
operands of the chain at its root: truth, equality, text and hash are all computed operand by
operand, and the depth they descend to is that of the nesting, not that of the chain.
-/
namespace FileTags.Query

/-- How two expressions are joined. -/
inductive Connective where
  | both
  | either
  deriving DecidableEq, Repr

namespace Connective

/-- The character that joins two expressions in a query. -/
def symbol : Connective → String
  | .both => "&"
  | .either => "|"

/-- The name of the joined expression. -/
def name : Connective → String
  | .both => "And"
  | .either => "Or"

end Connective

/-- A condition on the tags of a file. -/
inductive Expr where
  | tag (name : String)
  | join (op : Connective) (left right : Expr)
  deriving DecidableEq, Repr

instance : Inhabited Expr := ⟨.tag ""⟩

namespace Expr

/-- The operands of the chain of a connective that ends in an expression, before the given ones. -/
def operandsOnto (op : Connective) (e : Expr) (later : List Expr) : List Expr :=
  match e with
  | .tag name => .tag name :: later
  | .join op' left right =>
    if op' = op then operandsOnto op left (right :: later) else .join op' left right :: later

/-- The operands of the chain of a connective at the root of an expression, left to right. -/
def operandsOf (op : Connective) (e : Expr) : List Expr := operandsOnto op e []

/-- The operands of the chain at the root; a tag is its own only operand. -/
def operands : Expr → List Expr
  | .tag name => [.tag name]
  | .join op left right => operandsOf op (.join op left right)

theorem operandsOnto_eq (op : Connective) (e : Expr) (later : List Expr) :
    operandsOnto op e later = operandsOf op e ++ later := by
  induction e generalizing later with
  | tag name => rfl
  | join op' left right ihl ihr =>
    by_cases h : op' = op
    · simp only [operandsOf, operandsOnto, h, if_true]
      rw [ihl, ihl [right]]; simp
    · simp [operandsOf, operandsOnto, h]

@[simp] theorem operandsOf_tag (op : Connective) (name : String) :
    operandsOf op (.tag name) = [.tag name] := rfl

@[simp] theorem operandsOf_join_self (op : Connective) (left right : Expr) :
    operandsOf op (.join op left right) = operandsOf op left ++ [right] := by
  rw [operandsOf, operandsOnto, if_pos rfl, operandsOnto_eq]

theorem operandsOf_join_of_ne {op op' : Connective} (h : op' ≠ op) (left right : Expr) :
    operandsOf op (.join op' left right) = [.join op' left right] := by
  simp [operandsOf, operandsOnto, h]

@[simp] theorem operands_join (op : Connective) (left right : Expr) :
    operands (.join op left right) = operandsOf op left ++ [right] := by
  simp [operands]

/-- The operands of a chain are no larger than the expression they are read from. -/
theorem sizeOf_le_of_mem_operandsOf {op : Connective} {e o : Expr} (h : o ∈ operandsOf op e) :
    sizeOf o ≤ sizeOf e := by
  induction e with
  | tag name => simp_all
  | join op' left right ihl ihr =>
    by_cases hop : op' = op
    · subst hop
      rcases List.mem_append.1 (operandsOf_join_self .. ▸ h) with h | h
      · have := ihl h
        simp only [join.sizeOf_spec]; omega
      · simp only [List.mem_singleton] at h
        subst h; simp only [join.sizeOf_spec]; omega
    · simp_all [operandsOf_join_of_ne hop]

/-- The operands of a joined expression are smaller than it. -/
theorem sizeOf_lt_of_mem_operands {op : Connective} {left right o : Expr}
    (h : o ∈ operands (.join op left right)) : sizeOf o < sizeOf (Expr.join op left right) := by
  rcases List.mem_append.1 (operands_join .. ▸ h) with h | h
  · have := sizeOf_le_of_mem_operandsOf h
    simp only [join.sizeOf_spec]; omega
  · simp only [List.mem_singleton] at h
    subst h; simp only [join.sizeOf_spec]; omega

/-- Whether a file with the given tags meets the condition. -/
def holds (tagged : String → Bool) : Expr → Bool
  | .tag name => tagged name
  | .join .both left right =>
    (operands (.join .both left right)).attach.all fun o => holds tagged o.1
  | .join .either left right =>
    (operands (.join .either left right)).attach.any fun o => holds tagged o.1
termination_by e => sizeOf e
decreasing_by all_goals exact sizeOf_lt_of_mem_operands o.2

/-- The chain's operands, each rendered, folded from the left. -/
def foldChain (combine : String → String → String) : List String → String
  | [] => ""
  | first :: rest => rest.foldl combine first

/-- The text of an expression: a query that it is read back from, with parentheses around each
pair that is joined. -/
def toText : Expr → String
  | .tag name => name
  | .join op left right =>
    foldChain (fun text operand => "(" ++ text ++ " " ++ op.symbol ++ " " ++ operand ++ ")")
      ((operands (.join op left right)).attach.map fun o => toText o.1)
termination_by e => sizeOf e
decreasing_by exact sizeOf_lt_of_mem_operands o.2

/-- The structure of an expression, in words.  The names of tags are shown by a given function. -/
def shown (quote : String → String) : Expr → String
  | .tag name => "Literal(name=" ++ quote name ++ ")"
  | .join op left right =>
    foldChain (fun text operand => op.name ++ "(" ++ text ++ ", " ++ operand ++ ")")
      ((operands (.join op left right)).attach.map fun o => shown quote o.1)
termination_by e => sizeOf e
decreasing_by exact sizeOf_lt_of_mem_operands o.2

/-- Whether two expressions are the same: names alike, or chains of one connective with the same
operands in order. -/
def same (a b : Expr) : Bool :=
  match a, b with
  | .tag name, .tag name' => name == name'
  | .join op left right, .join op' left' right' =>
    let mine := operands (.join op left right)
    let theirs := operands (.join op' left' right')
    op = op' && mine.length == theirs.length
      && (mine.attach.zip theirs).all fun pair => same pair.1.1 pair.2
  | _, _ => false
termination_by sizeOf a
decreasing_by exact sizeOf_lt_of_mem_operands pair.1.2

/-- A number that same expressions share, from a number for each name. -/
def hashWith (hashName : String → UInt64) : Expr → UInt64
  | .tag name => hashName name
  | .join op left right =>
    let hashes := (operands (.join op left right)).attach.map fun o => hashWith hashName o.1
    hashes.foldl mixHash (hashName op.name)
termination_by e => sizeOf e
decreasing_by exact sizeOf_lt_of_mem_operands o.2

/-- The tag names in an expression, left to right. -/
def names : Expr → List String
  | .tag name => [name]
  | .join _ left right => left.names ++ right.names

end Expr

end FileTags.Query
