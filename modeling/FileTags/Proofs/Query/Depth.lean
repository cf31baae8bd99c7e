import FileTags.Proofs.Query.Chains
import FileTags.Proofs.Query.Refusal
import Mathlib.Data.List.MinMax
/-! # Depth

An expression is gone through chain by chain, so what counts for a recursion is not how high the
tree is but how many chains lie inside each other (`Expr.depth`).  A long query is a high tree.  This
module says that it is not a deep one: the parentheses of a query bound the depth, and their nesting
has a limit (`Expr.depth_of_parse`).

* A row of the grammar is a chain, so a level of parentheses is two levels of chains: conjunctions in
  a disjunction.  The induction over the grammar goes by the operands of the chain and not by the
  chain, because a row may begin with a chain of its own connective in parentheses, and goes on with
  its operands (`Operand.depth_le`, `Conjunction.depth_le`, `Disjunction.depth_le`).
* Going by a scheme takes as many levels of recursion as the expression is deep, and gives no answer
  with fewer (`Scheme.Gives.within_eq`).
* The bound is attained: a conjunction in a disjunction, in as many parentheses as are allowed, each
  pair of them the right side of the conjunction around it (`tower`).
-/
namespace FileTags.Query

namespace Expr

/-! ## Chains inside chains -/

/-- How many chains lie inside each other: none in a tag, and in a chain one more than in the deepest
of its operands. -/
def depth : Expr → Nat
  | .tag _ => 0
  | .join op left right =>
    1 + ((operands (.join op left right)).attach.map fun o => depth o.1).foldr max 0
termination_by e => sizeOf e
decreasing_by exact sizeOf_lt_of_mem_operands o.2

@[simp] theorem depth_tag (name : String) : depth (.tag name) = 0 := by rw [depth]

theorem depth_join (op : Connective) (l r : Expr) :
    depth (.join op l r) = 1 + ((operands (.join op l r)).map depth).foldr max 0 := by
  rw [depth, List.attach_map_val]

theorem depth_join_le_iff {op : Connective} {l r : Expr} {n : Nat} :
    depth (.join op l r) ≤ n + 1 ↔ ∀ o ∈ operands (.join op l r), o.depth ≤ n := by
  rw [depth_join, Nat.add_comm, Nat.succ_le_succ_iff]
  constructor
  · intro h o ho
    exact (List.le_max_of_le (List.mem_map_of_mem ho) le_rfl).trans h
  · intro h
    exact List.max_le_of_forall_le _ _ (List.forall_mem_map.2 h)

theorem depth_lt_of_mem_operands {op : Connective} {l r o : Expr}
    (h : o ∈ operands (.join op l r)) : o.depth < depth (.join op l r) := by
  have hpos : depth (.join op l r) = depth (.join op l r) - 1 + 1 := by
    rw [depth_join]
    omega
  have hle := depth_join_le_iff.1 hpos.le o h
  omega

theorem depth_le_of_mem_operandsOf {op : Connective} {e o : Expr} (h : o ∈ operandsOf op e) :
    o.depth ≤ e.depth := by
  by_cases hop : e.kind = some op
  · obtain ⟨l, r, rfl⟩ := exists_of_kind hop
    exact (depth_lt_of_mem_operands h).le
  · rw [operandsOf_of_kind hop] at h
    rw [List.mem_singleton.1 h]

/-- One level more than the operands, if the expression is a chain of the connective at all. -/
theorem depth_le_succ {op : Connective} {e : Expr} {n : Nat}
    (h : ∀ o ∈ operandsOf op e, o.depth ≤ n) : e.depth ≤ n + 1 := by
  by_cases hop : e.kind = some op
  · obtain ⟨l, r, rfl⟩ := exists_of_kind hop
    exact depth_join_le_iff.2 h
  · rw [operandsOf_of_kind hop] at h
    exact (List.forall_mem_singleton.1 h).trans (Nat.le_succ n)

end Expr

/-! ## Levels of recursion -/

namespace Scheme

variable {α : Type} {s : Scheme α} {f : Expr → α}

/-- Going by a scheme with so many levels of recursion, a level for each chain inside a chain. -/
def within (s : Scheme α) : Nat → Expr → Option α
  | _, .tag name => some (s.tag name)
  | 0, .join .. => none
  | levels + 1, .join op l r =>
    ((Expr.operands (.join op l r)).mapM (s.within levels)).map (s.chain op)

/-- A row is gone through if each of its members is. -/
theorem mapM_ite (p : Expr → Prop) [DecidablePred p] (f : Expr → α) (es : List Expr) :
    (es.mapM fun e => if p e then some (f e) else none) =
      if ∀ e ∈ es, p e then some (es.map f) else none := by
  induction es with
  | nil => simp
  | cons e es ih =>
    rw [List.mapM_cons, ih]
    by_cases he : p e
    · by_cases hes : ∀ e ∈ es, p e
      · simp [he, if_pos hes]
      · simp [he, if_neg hes]
    · simp [he]

/-- **The recursion goes as deep as the expression**, and no deeper. -/
theorem Gives.within_eq (h : s.Gives f) (levels : Nat) (e : Expr) :
    s.within levels e = if e.depth ≤ levels then some (f e) else none := by
  induction levels generalizing e with
  | zero =>
    cases e with
    | tag name => rw [within, Expr.depth_tag, if_pos le_rfl, h.tag]
    | join op l r =>
      -- A chain has operands, so it needs a level for them.
      have hpos : ¬ Expr.depth (.join op l r) ≤ 0 := by
        rw [Expr.depth_join]
        omega
      rw [within, if_neg hpos]
  | succ levels ih =>
    cases e with
    | tag name => rw [within, Expr.depth_tag, if_pos (Nat.zero_le _), h.tag]
    | join op l r =>
      rw [within, funext ih, mapM_ite, h.chain]
      simp only [Expr.depth_join_le_iff]
      split <;> rfl

end Scheme

/-- All that is done with an expression is done in so many levels of recursion. -/
structure Expr.StaysWithin (levels : Nat) (e : Expr) : Prop where
  holds : ∀ tagged, (truthScheme tagged).within levels e = some (e.holds tagged)
  same : sameScheme.within levels e = some (Expr.same e)
  hash : ∀ hashName, (hashScheme hashName).within levels e = some (e.hashWith hashName)
  text : (foldScheme id joined).within levels e = some e.toText
  shown : ∀ quote, (foldScheme (fun name => "Literal(name=" ++ quote name ++ ")") described).within
    levels e = some (e.shown quote)

theorem Expr.staysWithin_of_depth_le {levels : Nat} {e : Expr} (h : e.depth ≤ levels) :
    e.StaysWithin levels where
  holds tagged := by rw [(truthScheme_gives tagged).within_eq, if_pos h]
  same := by rw [same_gives.within_eq, if_pos h]
  hash hashName := by rw [(hashWith_gives hashName).within_eq, if_pos h]
  text := by rw [toText_gives.within_eq, if_pos h]
  shown quote := by rw [(shown_gives quote).within_eq, if_pos h]

/-! ## Parentheses in a text -/

/-- The most parentheses that are open at once, if so many are open already. -/
def mostOpen (n : Nat) : List Symbol → Nat
  | [] => n
  | .opening :: xs => mostOpen (n + 1) xs
  | .closing :: xs => max n (mostOpen (n - 1) xs)
  | .both :: xs | .either :: xs | .name _ :: xs => mostOpen n xs

/-- How deep the parentheses of a query are nested. -/
def nesting (query : String) : Nat := mostOpen 0 ((tokens query).map Token.symbol)

theorem le_mostOpen (n : Nat) (xs : List Symbol) : n ≤ mostOpen n xs := by
  induction xs generalizing n with
  | nil => exact le_rfl
  | cons s xs ih =>
    cases s with
    | opening => exact (Nat.le_succ n).trans (ih (n + 1))
    | closing => exact Nat.le_max_left ..
    | both | either | name _ => exact ih n

mutual

/-- An operand closes what it opens, and opens as many parentheses as it is nested. -/
theorem Operand.mostOpen_append : ∀ (o : Operand) (n : Nat) (xs : List Symbol),
    mostOpen n (o.symbols ++ xs) = max (n + o.nesting) (mostOpen n xs)
  | .tag name, n, xs => (Nat.max_eq_right (le_mostOpen n xs)).symm
  | .group d, n, xs => by
    have hclosing : mostOpen (n + 1) (.closing :: xs) = max (n + 1) (mostOpen n xs) := rfl
    show mostOpen (n + 1) (d.symbols ++ [.closing] ++ xs) = _
    rw [List.append_assoc, d.mostOpen_append, List.singleton_append, hclosing, Operand.nesting]
    omega

theorem Conjunction.mostOpen_append : ∀ (c : Conjunction) (n : Nat) (xs : List Symbol),
    mostOpen n (c.symbols ++ xs) = max (n + c.nesting) (mostOpen n xs)
  | .one o, n, xs => o.mostOpen_append n xs
  | .more c o, n, xs => by
    rw [Conjunction.symbols, List.append_assoc, c.mostOpen_append, List.cons_append, mostOpen,
      o.mostOpen_append, Conjunction.nesting]
    omega

theorem Disjunction.mostOpen_append : ∀ (d : Disjunction) (n : Nat) (xs : List Symbol),
    mostOpen n (d.symbols ++ xs) = max (n + d.nesting) (mostOpen n xs)
  | .one c, n, xs => c.mostOpen_append n xs
  | .more d c, n, xs => by
    rw [Disjunction.symbols, List.append_assoc, d.mostOpen_append, List.cons_append, mostOpen,
      c.mostOpen_append, Disjunction.nesting]
    omega

end

/-- A query is nested as deep as its derivation. -/
theorem Derives.nesting_eq {query : String} {d : Disjunction} (h : Derives query d) :
    nesting query = d.nesting := by
  have hopen := d.mostOpen_append 0 []
  rw [List.append_nil, mostOpen] at hopen
  rw [nesting, ← h.symbols_eq, hopen]
  omega

/-! ## The depth of what is read -/

open FileTags.Query.Expr (operandsOf)

mutual

/-- Parentheses are transparent: in them is a disjunction of conjunctions, two levels of chains. -/
theorem Operand.depth_le : ∀ o : Operand, o.expr.depth ≤ 2 * o.nesting
  | .tag name => (Expr.depth_tag name).le
  | .group d => Expr.depth_le_succ d.depth_le

/-- What is said is said of the operands of the chain: the row's first operand may itself be such a
chain, and then it lends its own. -/
theorem Conjunction.depth_le : ∀ (c : Conjunction),
    ∀ e ∈ operandsOf .both c.expr, e.depth ≤ 2 * c.nesting
  | .one o, e, he => (Expr.depth_le_of_mem_operandsOf he).trans o.depth_le
  | .more c o, e, he => by
    rw [Conjunction.expr, Expr.operandsOf_join_self] at he
    rw [Conjunction.nesting]
    rcases List.mem_append.1 he with he | he
    · have := c.depth_le e he
      omega
    · have := o.depth_le
      rw [List.mem_singleton.1 he]
      omega

theorem Disjunction.depth_le : ∀ (d : Disjunction),
    ∀ e ∈ operandsOf .either d.expr, e.depth ≤ 2 * d.nesting + 1
  | .one c, e, he => (Expr.depth_le_of_mem_operandsOf he).trans (Expr.depth_le_succ c.depth_le)
  | .more d c, e, he => by
    rw [Disjunction.expr, Expr.operandsOf_join_self] at he
    rw [Disjunction.nesting]
    rcases List.mem_append.1 he with he | he
    · have := d.depth_le e he
      omega
    · have := Expr.depth_le_succ c.depth_le
      rw [List.mem_singleton.1 he]
      omega

end

/-! ## The deepest queries -/

/-- Queries of which each is the right side of a conjunction, in a disjunction, in the next. -/
def tower : Nat → Disjunction
  | 0 => .more (.one (.one (.tag "a"))) (.more (.one (.tag "a")) (.tag "a"))
  | n + 1 => .more (.one (.one (.tag "a"))) (.more (.one (.tag "a")) (.group (tower n)))

theorem tower_nesting (n : Nat) : (tower n).nesting = n := by
  induction n with
  | zero => rfl
  | succ n ih =>
    simp only [tower, Disjunction.nesting, Conjunction.nesting, Operand.nesting, ih]
    omega

theorem tower_written (n : Nat) : ∀ s ∈ (tower n).symbols, s.IsWritten := by
  induction n with
  | zero =>
    simp [tower, Disjunction.symbols, Conjunction.symbols, Operand.symbols, Symbol.IsWritten,
      isName_a]
  | succ n ih =>
    simp only [tower, Disjunction.symbols, Conjunction.symbols, Operand.symbols, List.mem_append,
      List.mem_cons, List.not_mem_nil, or_false]
    rintro s (rfl | rfl | rfl | rfl | rfl | hs | rfl)
    · exact isName_a
    · trivial
    · exact isName_a
    · trivial
    · trivial
    · exact ih s hs
    · trivial

/-- A tag joined to an expression of another kind: one level more. -/
theorem Expr.depth_join_tag (op : Connective) (name : String) (e : Expr) :
    (join op (.tag name) e).depth = e.depth + 1 := by
  rw [depth_join, operands_join]
  simp
  omega

theorem tower_depth (n : Nat) : (tower n).expr.depth = 2 * (n + 1) := by
  induction n with
  | zero =>
    simp only [tower, Disjunction.expr, Conjunction.expr, Operand.expr, Expr.depth_join_tag,
      Expr.depth_tag]
  | succ n ih =>
    simp only [tower, Disjunction.expr, Conjunction.expr, Operand.expr, Expr.depth_join_tag, ih]
    omega

/-- **Parentheses bound the depth of a query, whatever its length.**  The expression of a query
nested `n` deep has at most `2 * (n + 1)` chains inside each other, and so all that is done with it
is done in that many levels of recursion, 130 at most.  No smaller bound holds for any `n`. -/
theorem Expr.depth_of_parse :
    (∀ query e, parse query = .ok e →
      nesting query ≤ maxNesting ∧ e.depth ≤ 2 * (nesting query + 1) ∧ e.depth ≤ 130 ∧
        e.StaysWithin (2 * (nesting query + 1)) ∧ e.StaysWithin 130) ∧
      ∀ n ≤ maxNesting, ∃ query e,
        nesting query = n ∧ parse query = .ok e ∧ e.depth = 2 * (n + 1) := by
  constructor
  · intro query e h
    obtain ⟨d, hd, rfl⟩ := exists_derives h
    have hnesting := hd.nesting_le
    have hdepth : d.expr.depth ≤ 2 * (nesting query + 1) := by
      rw [hd.nesting_eq]
      exact depth_le_succ d.depth_le
    rw [← hd.nesting_eq] at hnesting
    have hlimit : d.expr.depth ≤ 130 := by
      have : maxNesting = 64 := rfl
      omega
    exact ⟨hnesting, hdepth, hlimit, staysWithin_of_depth_le hdepth, staysWithin_of_depth_le hlimit⟩
  · intro n hn
    obtain ⟨query, hquery⟩ := exists_text (tower_written n)
    have hd : Derives query (tower n) := ⟨hquery.symm, by rwa [tower_nesting]⟩
    have hnesting : nesting query = n := by rw [hd.nesting_eq, tower_nesting]
    exact ⟨query, (tower n).expr, hnesting, hd.parse_eq_ok, tower_depth n⟩

/-- Parentheses on the right of a conjunction, and a query as deep as they come. -/
theorem Expr.depth_of_parse_of_group :
    let e : Expr := .join .either (.tag "a") (.join .both (.tag "b")
      (.join .either (.tag "c") (.join .both (.tag "d") (.tag "e"))))
    parse "a | b & (c | d & e)" = .ok e ∧ nesting "a | b & (c | d & e)" = 1 ∧
      e.depth ≤ 4 ∧ e.StaysWithin 4 ∧
      64 ≤ maxNesting ∧
        ∃ query e, nesting query = 64 ∧ parse query = .ok e ∧ e.depth = 130 := by
  intro e
  have hparse : parse "a | b & (c | d & e)" = .ok e := by cbv
  have hnesting : nesting "a | b & (c | d & e)" = 1 := by cbv
  obtain ⟨-, hdepth, -, hstays, -⟩ := depth_of_parse.1 _ e hparse
  rw [hnesting] at hdepth hstays
  exact ⟨hparse, hnesting, hdepth, hstays, by decide, depth_of_parse.2 64 (by decide)⟩

end FileTags.Query
