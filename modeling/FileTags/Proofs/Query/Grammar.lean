import FileTags.Query.Reader
/-! # The grammar of queries

What a query is, said without a reader.  A query is a disjunction, a row of conjunctions with
"either" between them; a conjunction is a row of operands with "both" between them; an operand is
the name of a tag, or a disjunction in parentheses.  A derivation is such a tree.

A row is taken apart at its last connective.  That makes the expression of a derivation lean to the
left, and it makes the grammar easy to read backwards: the last symbols of a query determine the
last operand, so two derivations with the same symbols are the same (`Disjunction.symbols_injective`).
-/
namespace FileTags.Query

mutual

/-- A tag, or a query in parentheses. -/
inductive Operand where
  | tag (name : String)
  | group (inner : Disjunction)

/-- Operands with "both" between them. -/
inductive Conjunction where
  | one (o : Operand)
  | more (before : Conjunction) (o : Operand)

/-- Conjunctions with "either" between them. -/
inductive Disjunction where
  | one (c : Conjunction)
  | more (before : Disjunction) (c : Conjunction)

end

/-! ## Symbols, nesting and expression -/

mutual

/-- The symbols that an operand is written with. -/
def Operand.symbols : Operand → List Symbol
  | .tag name => [.name name]
  | .group d => .opening :: (d.symbols ++ [.closing])

def Conjunction.symbols : Conjunction → List Symbol
  | .one o => o.symbols
  | .more c o => c.symbols ++ .both :: o.symbols

def Disjunction.symbols : Disjunction → List Symbol
  | .one c => c.symbols
  | .more d c => d.symbols ++ .either :: c.symbols

end

mutual

/-- How deep parentheses are nested in an operand. -/
def Operand.nesting : Operand → Nat
  | .tag _ => 0
  | .group d => d.nesting + 1

def Conjunction.nesting : Conjunction → Nat
  | .one o => o.nesting
  | .more c o => max c.nesting o.nesting

def Disjunction.nesting : Disjunction → Nat
  | .one c => c.nesting
  | .more d c => max d.nesting c.nesting

end

mutual

/-- The expression that an operand stands for.  Parentheses only group. -/
def Operand.expr : Operand → Expr
  | .tag name => .tag name
  | .group d => d.expr

/-- "Both" joins what is before it to the operand after it. -/
def Conjunction.expr : Conjunction → Expr
  | .one o => o.expr
  | .more c o => .join .both c.expr o.expr

/-- "Either" joins what is before it to the whole conjunction after it. -/
def Disjunction.expr : Disjunction → Expr
  | .one c => c.expr
  | .more d c => .join .either d.expr c.expr

end

/-- **A derivation of a query**: its symbols are those of the query's tokens, and its parentheses
are nested no deeper than a reader takes them. -/
structure Derives (query : String) (d : Disjunction) : Prop where
  symbols_eq : d.symbols = (tokens query).map Token.symbol
  nesting_le : d.nesting ≤ maxNesting

/-! ## Derivations are unique -/

/-- No row can be continued to the left: the symbols end with neither connective. -/
structure NoConnective (xs : List Symbol) : Prop where
  both : xs.getLast? ≠ some .both
  either : xs.getLast? ≠ some .either

theorem noConnective_nil : NoConnective [] := ⟨nofun, nofun⟩

theorem noConnective_opening (xs : List Symbol) : NoConnective (xs ++ [.opening]) := by
  constructor <;> rw [List.getLast?_concat] <;> exact nofun

theorem getLast?_either_ne (xs : List Symbol) : (xs ++ [Symbol.either]).getLast? ≠ some .both := by
  rw [List.getLast?_concat]
  exact nofun

theorem getLast?_concat_ne {xs ys : List Symbol} {s : Symbol} (h : xs.getLast? ≠ some s) :
    xs ≠ ys ++ [s] := by
  intro he
  exact h (by rw [he, List.getLast?_concat])

theorem Operand.append_group (xs : List Symbol) (d : Disjunction) :
    xs ++ (Operand.group d).symbols = xs ++ [.opening] ++ d.symbols ++ [.closing] := by
  simp [Operand.symbols]

theorem Conjunction.append_more (xs : List Symbol) (c : Conjunction) (o : Operand) :
    xs ++ (Conjunction.more c o).symbols = xs ++ c.symbols ++ [.both] ++ o.symbols := by
  simp [Conjunction.symbols]

theorem Disjunction.append_more (xs : List Symbol) (d : Disjunction) (c : Conjunction) :
    xs ++ (Disjunction.more d c).symbols = xs ++ d.symbols ++ [.either] ++ c.symbols := by
  simp [Disjunction.symbols]

mutual

/-- The last operand of some symbols can be read off their end. -/
theorem Operand.eq_of_suffix : ∀ (o p : Operand) {xs ys : List Symbol},
    xs ++ o.symbols = ys ++ p.symbols → xs = ys ∧ o = p
  | .tag n, .tag n', xs, ys, h => by
    obtain ⟨hxs, hn⟩ := List.append_inj' h rfl
    cases hn
    exact ⟨hxs, rfl⟩
  | .tag n, .group d, xs, ys, h => by
    rw [Operand.append_group] at h
    cases (List.append_inj' h rfl).2
  | .group d, .tag n, xs, ys, h => by
    rw [Operand.append_group] at h
    cases (List.append_inj' h rfl).2
  | .group d, .group d', xs, ys, h => by
    rw [Operand.append_group, Operand.append_group] at h
    obtain ⟨hxs, rfl⟩ := d.eq_of_suffix d' (noConnective_opening xs) (noConnective_opening ys)
      (List.append_inj' h rfl).1
    exact ⟨(List.append_inj' hxs rfl).1, rfl⟩

/-- So can the last conjunction, if no "both" stands before it. -/
theorem Conjunction.eq_of_suffix : ∀ (c d : Conjunction) {xs ys : List Symbol},
    xs.getLast? ≠ some .both → ys.getLast? ≠ some .both →
    xs ++ c.symbols = ys ++ d.symbols → xs = ys ∧ c = d
  | .one o, .one p, xs, ys, _, _, h => by
    obtain ⟨hxs, rfl⟩ := o.eq_of_suffix p h
    exact ⟨hxs, rfl⟩
  | .one o, .more d p, xs, ys, hx, _, h => by
    -- The operand is the same, so what is before it ends with "both" on one side only.
    rw [Conjunction.append_more] at h
    exact absurd (o.eq_of_suffix p h).1 (getLast?_concat_ne hx)
  | .more c o, .one p, xs, ys, _, hy, h => by
    rw [Conjunction.append_more] at h
    exact absurd (o.eq_of_suffix p h).1.symm (getLast?_concat_ne hy)
  | .more c o, .more d p, xs, ys, hx, hy, h => by
    rw [Conjunction.append_more, Conjunction.append_more] at h
    obtain ⟨hbefore, rfl⟩ := o.eq_of_suffix p h
    obtain ⟨hxs, rfl⟩ := c.eq_of_suffix d hx hy (List.append_inj' hbefore rfl).1
    exact ⟨hxs, rfl⟩

/-- So can the last disjunction, if no connective stands before it. -/
theorem Disjunction.eq_of_suffix : ∀ (d e : Disjunction) {xs ys : List Symbol},
    NoConnective xs → NoConnective ys → xs ++ d.symbols = ys ++ e.symbols → xs = ys ∧ d = e
  | .one c, .one c', xs, ys, hx, hy, h => by
    obtain ⟨hxs, rfl⟩ := c.eq_of_suffix c' hx.both hy.both h
    exact ⟨hxs, rfl⟩
  | .one c, .more e c', xs, ys, hx, _, h => by
    -- The conjunction is the same, so what is before it ends with "either" on one side only.
    rw [Disjunction.append_more] at h
    exact absurd (c.eq_of_suffix c' hx.both (getLast?_either_ne _) h).1
      (getLast?_concat_ne hx.either)
  | .more d c, .one c', xs, ys, _, hy, h => by
    rw [Disjunction.append_more] at h
    exact absurd (c.eq_of_suffix c' (getLast?_either_ne _) hy.both h).1.symm
      (getLast?_concat_ne hy.either)
  | .more d c, .more e c', xs, ys, hx, hy, h => by
    rw [Disjunction.append_more, Disjunction.append_more] at h
    obtain ⟨hbefore, rfl⟩ :=
      c.eq_of_suffix c' (getLast?_either_ne _) (getLast?_either_ne _) h
    obtain ⟨hxs, rfl⟩ := d.eq_of_suffix e hx hy (List.append_inj' hbefore rfl).1
    exact ⟨hxs, rfl⟩

end

/-- **The grammar is unambiguous**: symbols have at most one derivation. -/
theorem Disjunction.symbols_injective {d e : Disjunction} (h : d.symbols = e.symbols) : d = e :=
  (d.eq_of_suffix e noConnective_nil noConnective_nil (congrArg ([] ++ ·) h)).2

end FileTags.Query
