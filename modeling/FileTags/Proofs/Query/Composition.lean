import FileTags.Proofs.Query.Layout
import FileTags.Proofs.Query.Reading
/-! # Queries put together

Two queries with "either" between them make a query, and a query in parentheses makes an operand.
This module says what becomes of their derivations, and so what the reader makes of the text.

* Nothing is scanned across a blank or a special character, so the symbols of the text are those of
  its parts (`symbolsOf_append`).
* "Either" binds loosest and leans to the left, so the rows of two disjunctions become one row
  (`Disjunction.append`).  Its expression is not the join of the two expressions, but it holds when
  one of them holds (`Disjunction.holds_append`).
* In parentheses a disjunction stays whole, at the price of one level of nesting.
-/
namespace FileTags.Query

/-! ## Symbols of a text put together -/

/-- The symbols that characters are scanned as. -/
def symbolsOf (cs : List Char) : List Symbol := (scan 0 cs).map Token.symbol

/-- Where characters stand makes no difference to their symbols. -/
theorem map_symbol_scan (position : Nat) (cs : List Char) :
    (scan position cs).map Token.symbol = symbolsOf cs := by
  obtain ⟨us, hus, hsymbols⟩ := (laid_scan position cs).moved 0
  rw [symbolsOf, hus.scan_eq, hsymbols]

/-- The tokens of a text are those of two parts, if the second part starts where names end. -/
theorem scan_append {ds : List Char} (h : EndsName ds) (position : Nat) (cs : List Char) :
    scan position (cs ++ ds) = scan position cs ++ scan (position + cs.length) ds :=
  ((laid_scan position cs).append h (laid_scan _ ds)).scan_eq

/-- The symbols of a text are those of its parts. -/
theorem symbolsOf_append {ds : List Char} (h : EndsName ds) (cs : List Char) :
    symbolsOf (cs ++ ds) = symbolsOf cs ++ symbolsOf ds := by
  rw [symbolsOf, scan_append h, List.map_append, map_symbol_scan, map_symbol_scan]

theorem symbolsOf_special {c : Char} {s : Symbol} (h : Symbol.ofChar? c = some s) (cs : List Char) :
    symbolsOf (c :: cs) = s :: symbolsOf cs := by
  rw [symbolsOf, scan_special h, List.map_cons, map_symbol_scan]

theorem symbolsOf_space (cs : List Char) : symbolsOf (' ' :: cs) = symbolsOf cs := by
  rw [symbolsOf, scan_space, map_symbol_scan]

theorem symbolsOf_nil : symbolsOf [] = [] := by
  rw [symbolsOf, scan_nil, List.map_nil]

/-! The texts that are put together here, by the symbols of their parts. -/

section Texts
variable (p q : String)

theorem symbols_either : (tokens (p ++ " | " ++ q)).map Token.symbol =
    (tokens p).map Token.symbol ++ .either :: (tokens q).map Token.symbol := by
  have hbetween : EndsName (' ' :: '|' :: ' ' :: q.toList) := endsName_cons rfl _
  show symbolsOf (p ++ " | " ++ q).toList = symbolsOf p.toList ++ .either :: symbolsOf q.toList
  rw [String.toList_append, String.toList_append, List.append_assoc]
  show symbolsOf (p.toList ++ ' ' :: '|' :: ' ' :: q.toList) = _
  rw [symbolsOf_append hbetween, symbolsOf_space, symbolsOf_special rfl, symbolsOf_space]

/-- The characters of a query in parentheses, and what comes after it. -/
theorem symbolsOf_group (after : List Char) :
    symbolsOf ('(' :: (p.toList ++ ')' :: after)) =
      .opening :: ((tokens p).map Token.symbol ++ .closing :: symbolsOf after) := by
  have hclosing : EndsName (')' :: after) := endsName_cons rfl _
  rw [symbolsOf_special rfl, symbolsOf_append hclosing, symbolsOf_special rfl]
  rfl

theorem symbols_group : (tokens ("(" ++ p ++ ")")).map Token.symbol =
    .opening :: ((tokens p).map Token.symbol ++ [.closing]) := by
  show symbolsOf ("(" ++ p ++ ")").toList = _
  rw [String.toList_append, String.toList_append]
  show symbolsOf ('(' :: (p.toList ++ [')'])) = _
  rw [symbolsOf_group, symbolsOf_nil]

theorem symbols_both : (tokens ("(" ++ p ++ ") & (" ++ q ++ ")")).map Token.symbol =
    .opening :: ((tokens p).map Token.symbol ++ [.closing]) ++ .both ::
      .opening :: ((tokens q).map Token.symbol ++ [.closing]) := by
  show symbolsOf ("(" ++ p ++ ") & (" ++ q ++ ")").toList = _
  simp only [String.toList_append, List.append_assoc]
  show symbolsOf ('(' :: (p.toList ++ ')' :: ' ' :: '&' :: ' ' :: '(' :: (q.toList ++ [')']))) = _
  rw [symbolsOf_group, symbolsOf_space, symbolsOf_special rfl, symbolsOf_space, symbolsOf_group,
    symbolsOf_nil]
  simp

end Texts

/-! ## When a join holds -/

namespace Expr

variable (tagged : String → Bool)

/-- **A join of both holds if both sides do**, however long the chains are. -/
theorem holds_both (l r : Expr) :
    holds tagged (.join .both l r) = (holds tagged l && holds tagged r) :=
  (truthScheme_gives tagged).join (truthScheme_leans tagged) .both l r

theorem holds_either (l r : Expr) :
    holds tagged (.join .either l r) = (holds tagged l || holds tagged r) :=
  (truthScheme_gives tagged).join (truthScheme_leans tagged) .either l r

end Expr

/-! ## Derivations put together -/

/-- The conjunctions of two disjunctions in one row. -/
def Disjunction.append (d : Disjunction) : Disjunction → Disjunction
  | .one c => .more d c
  | .more e c => .more (d.append e) c

namespace Disjunction

theorem symbols_append (d : Disjunction) : ∀ e : Disjunction,
    (d.append e).symbols = d.symbols ++ .either :: e.symbols
  | .one c => rfl
  | .more e c => by
    rw [append, symbols, symbols_append d e, List.append_assoc]
    rfl

theorem nesting_append (d : Disjunction) : ∀ e : Disjunction,
    (d.append e).nesting = max d.nesting e.nesting
  | .one c => rfl
  | .more e c => by
    rw [append, nesting, nesting_append d e, Nat.max_assoc]
    rfl

/-- The row of two disjunctions leans to the left all through, and still it holds when one of them
does. -/
theorem holds_append (tagged : String → Bool) (d : Disjunction) : ∀ e : Disjunction,
    (d.append e).expr.holds tagged = (d.expr.holds tagged || e.expr.holds tagged)
  | .one c => Expr.holds_either tagged d.expr c.expr
  | .more e c => by
    rw [append, expr, Expr.holds_either, holds_append tagged d e, expr, Expr.holds_either,
      Bool.or_assoc]

end Disjunction

section Derives
variable {p q : String} {d e : Disjunction}

theorem Derives.either (hp : Derives p d) (hq : Derives q e) :
    Derives (p ++ " | " ++ q) (d.append e) where
  symbols_eq := by
    rw [Disjunction.symbols_append, symbols_either, hp.symbols_eq, hq.symbols_eq]
  nesting_le := by
    rw [Disjunction.nesting_append]
    exact Nat.max_le.2 ⟨hp.nesting_le, hq.nesting_le⟩

theorem Derives.group (hp : Derives p d) (hn : d.nesting < maxNesting) :
    Derives ("(" ++ p ++ ")") (.one (.one (.group d))) where
  symbols_eq := by
    rw [symbols_group, ← hp.symbols_eq]
    rfl
  nesting_le := hn

theorem Derives.both (hp : Derives p d) (hq : Derives q e) (hn : d.nesting < maxNesting)
    (hn' : e.nesting < maxNesting) :
    Derives ("(" ++ p ++ ") & (" ++ q ++ ")") (.one (.more (.one (.group d)) (.group e))) where
  symbols_eq := by
    rw [symbols_both, ← hp.symbols_eq, ← hq.symbols_eq]
    rfl
  nesting_le := Nat.max_le.2 ⟨hn, hn'⟩

end Derives

end FileTags.Query
