import FileTags.Proofs.Query.Chains
import FileTags.Proofs.Query.Grammar
/-! # The text of an expression

The text of an expression is folded from the operands of a chain, and that comes to recursion on the
expression (`Expr.toText_join`): every join is its two sides with the connective between them, in
parentheses.  So the text has the symbols of one operand of the grammar (`Expr.operand`), whose
expression is the expression and whose nesting is its height.

The tokens of a text are counted from where it starts (`Expr.tokensFrom`), and scanning a text gives
them whatever follows it, as long as no name runs on (`Expr.Named.scan_chars`).  Since symbols have
one derivation, different expressions have different texts.
-/
namespace FileTags.Query

namespace Expr

/-! ## The text, by recursion on the expression -/

@[simp] theorem toText_tag (name : String) : toText (.tag name) = name := toText_gives.tag name

/-- **A join is written as its sides with the connective between them, in parentheses.** -/
theorem toText_join (op : Connective) (l r : Expr) :
    toText (.join op l r) = joined op (toText l) (toText r) :=
  toText_gives.join (foldScheme_leans id joined) op l r

/-- The characters of the text. -/
def chars (e : Expr) : List Char := e.toText.toList

@[simp] theorem chars_tag (name : String) : chars (.tag name) = name.toList := by
  rw [chars, toText_tag]

end Expr

/-- The character of a connective. -/
def Connective.char : Connective → Char
  | .both => '&'
  | .either => '|'

/-- The symbol of a connective in a query. -/
def Connective.token : Connective → Symbol
  | .both => .both
  | .either => .either

theorem Connective.ofChar?_char (op : Connective) : Symbol.ofChar? op.char = some op.token := by
  cases op <;> rfl

namespace Expr

theorem chars_join (op : Connective) (l r : Expr) :
    chars (.join op l r) = '(' :: (l.chars ++ (' ' :: op.char :: ' ' :: (r.chars ++ [')']))) := by
  have hop : op.symbol.toList = [op.char] := by cases op <;> rfl
  simp only [chars, toText_join, joined, String.toList_append, hop, List.append_assoc]
  rfl

theorem length_chars_join (op : Connective) (l r : Expr) :
    (chars (.join op l r)).length = l.chars.length + r.chars.length + 5 := by
  rw [chars_join]
  simp only [List.length_cons, List.length_append, List.length_nil]
  omega

/-! ## The operand of the grammar that an expression is written as -/

/-- How many joins there are at most on the way to a tag. -/
def height : Expr → Nat
  | .tag _ => 0
  | .join _ l r => max l.height r.height + 1

/-- A tag, or the sides of a join in parentheses. -/
def operand : Expr → Operand
  | .tag name => .tag name
  | .join .both l r => .group (.one (.more (.one l.operand) r.operand))
  | .join .either l r => .group (.more (.one (.one l.operand)) (.one r.operand))

theorem operand_expr (e : Expr) : e.operand.expr = e := by
  induction e with
  | tag name => rfl
  | join op l r ihl ihr =>
    cases op <;>
      simp only [operand, Operand.expr, Disjunction.expr, Conjunction.expr, ihl, ihr]

theorem operand_injective {a b : Expr} (h : a.operand = b.operand) : a = b := by
  rw [← a.operand_expr, h, b.operand_expr]

theorem operand_nesting (e : Expr) : e.operand.nesting = e.height := by
  induction e with
  | tag name => rfl
  | join op l r ihl ihr =>
    cases op <;>
      simp only [operand, Operand.nesting, Disjunction.nesting, Conjunction.nesting, height, ihl, ihr]

theorem operand_symbols_join (op : Connective) (l r : Expr) :
    (operand (.join op l r)).symbols =
      .opening :: (l.operand.symbols ++ op.token :: (r.operand.symbols ++ [.closing])) := by
  cases op <;>
    simp only [operand, Operand.symbols, Disjunction.symbols, Conjunction.symbols,
      Connective.token, List.append_assoc, List.cons_append]

/-! ## The tokens of a text -/

/-- The tokens of an expression whose text starts at a position. -/
def tokensFrom (position : Nat) : Expr → List Token
  | .tag name => [⟨.name name, position⟩]
  | .join op l r =>
    ⟨.opening, position⟩ :: (l.tokensFrom (position + 1) ++
      ⟨op.token, position + l.chars.length + 2⟩ ::
        (r.tokensFrom (position + l.chars.length + 4) ++
          [⟨.closing, position + l.chars.length + r.chars.length + 4⟩]))

theorem tokensFrom_symbols (e : Expr) (position : Nat) :
    (e.tokensFrom position).map Token.symbol = e.operand.symbols := by
  induction e generalizing position with
  | tag name => rfl
  | join op l r ihl ihr =>
    rw [operand_symbols_join, tokensFrom, List.map_cons, List.map_append, List.map_cons,
      List.map_append, ihl, ihr]
    rfl

end Expr

/-! ## Scanning a text -/

/-- A name that a query can hold: at least one character, and all of them characters of names. -/
structure IsName (name : String) : Prop where
  ne_empty : name ≠ ""
  chars : ∀ c ∈ name.toList, isNameChar c = true

theorem isName_a : IsName "a" := ⟨nofun, List.forall_mem_singleton.2 rfl⟩

/-- The names in an expression can stand in a query. -/
def Expr.Named (e : Expr) : Prop := ∀ name ∈ e.names, IsName name

/-- No name runs on into these characters. -/
def EndsName (cs : List Char) : Prop := ∀ c ∈ cs.head?, isNameChar c = false

theorem endsName_nil : EndsName [] := nofun

theorem endsName_cons {c : Char} (h : isNameChar c = false) (cs : List Char) :
    EndsName (c :: cs) := by
  intro d hd
  cases hd
  exact h

theorem EndsName.span {cs : List Char} (h : EndsName cs) :
    cs.takeWhile isNameChar = [] ∧ cs.dropWhile isNameChar = cs := by
  cases cs with
  | nil => exact ⟨rfl, rfl⟩
  | cons c cs =>
    have hc : ¬ isNameChar c = true := by
      rw [h c rfl]
      exact Bool.false_ne_true
    exact ⟨List.takeWhile_cons_of_neg hc, List.dropWhile_cons_of_neg hc⟩

@[simp] theorem scan_nil (position : Nat) : scan position [] = [] := by rw [scan]

theorem scan_special {c : Char} {s : Symbol} (h : Symbol.ofChar? c = some s) (position : Nat)
    (cs : List Char) : scan position (c :: cs) = ⟨s, position⟩ :: scan (position + 1) cs := by
  rw [scan, h]

theorem scan_space (position : Nat) (cs : List Char) :
    scan position (' ' :: cs) = scan (position + 1) cs := by
  rw [scan]
  rfl

/-- A name is one token, up to where it ends. -/
theorem IsName.scan_append {name : String} (h : IsName name) (position : Nat) {cs : List Char}
    (hcs : EndsName cs) :
    scan position (name.toList ++ cs) =
      ⟨.name name, position⟩ :: scan (position + name.toList.length) cs := by
  obtain ⟨c, more, hname⟩ := List.exists_cons_of_ne_nil (mt String.toList_eq_nil_iff.1 h.ne_empty)
  have hall := h.chars
  rw [hname, List.forall_mem_cons] at hall
  obtain ⟨hc, hmore⟩ := hall
  rw [isNameChar, Bool.and_eq_true, Bool.not_eq_true', Bool.not_eq_true'] at hc
  obtain ⟨hblank, hspecial⟩ := hc
  have hchar : Symbol.ofChar? c = none :=
    Option.isNone_iff_eq_none.1 (Option.isSome_eq_false_iff.1 hspecial)
  -- The first character decides for a name, and the others carry it on to its end.
  rw [hname, List.cons_append, scan, hchar]
  dsimp only
  rw [if_neg (by rw [hblank]; exact Bool.false_ne_true), List.takeWhile_append_of_pos hmore,
    List.dropWhile_append_of_pos hmore, hcs.span.1, hcs.span.2, List.append_nil, ← hname,
    String.ofList_toList, hname, List.length_cons, Nat.add_assoc, Nat.add_comm 1]

namespace Expr

theorem Named.sides {op : Connective} {l r : Expr} (h : (join op l r).Named) :
    l.Named ∧ r.Named := List.forall_mem_append.1 h

/-- **A text is scanned as the tokens of its expression**, whatever comes after it. -/
theorem Named.scan_chars {e : Expr} (h : e.Named) (position : Nat) {cs : List Char}
    (hcs : EndsName cs) :
    scan position (e.chars ++ cs) =
      e.tokensFrom position ++ scan (position + e.chars.length) cs := by
  induction e generalizing position cs with
  | tag name =>
    rw [chars_tag]
    exact (h name (List.mem_singleton_self name)).scan_append position hcs
  | join op l r ihl ihr =>
    obtain ⟨hl, hr⟩ := h.sides
    have hclosing : EndsName (')' :: cs) := endsName_cons rfl cs
    have hspace : ∀ ds, EndsName (' ' :: ds) := endsName_cons rfl
    rw [length_chars_join, chars_join, tokensFrom, List.cons_append, scan_special rfl]
    simp only [List.append_assoc, List.cons_append, List.nil_append]
    rw [ihl hl _ (hspace _), scan_space, scan_special op.ofChar?_char, scan_space,
      ihr hr _ hclosing, scan_special rfl]
    have hop : position + 1 + l.chars.length + 1 = position + l.chars.length + 2 := by omega
    have hright : position + l.chars.length + 2 + 1 + 1 = position + l.chars.length + 4 := rfl
    have hclose : position + l.chars.length + 4 + r.chars.length =
        position + l.chars.length + r.chars.length + 4 := by omega
    have hend : position + (l.chars.length + r.chars.length + 5) =
        position + l.chars.length + r.chars.length + 4 + 1 := by omega
    rw [hop, hright, hclose, hend]

theorem Named.tokens_toText {e : Expr} (h : e.Named) : tokens e.toText = e.tokensFrom 0 := by
  have hscan := h.scan_chars 0 endsName_nil
  rwa [List.append_nil, scan_nil, List.append_nil] at hscan

/-- **Different expressions have different texts.** -/
theorem Named.eq_of_toText_eq {a b : Expr} (ha : a.Named) (hb : b.Named)
    (h : a.toText = b.toText) : a = b := by
  -- Not by reading the texts back, which has a limit.
  have htokens : a.tokensFrom 0 = b.tokensFrom 0 := by
    rw [← ha.tokens_toText, h, hb.tokens_toText]
  have hsymbols : a.operand.symbols = b.operand.symbols := by
    rw [← a.tokensFrom_symbols 0, htokens, b.tokensFrom_symbols 0]
  have hsuffix : ([] : List Symbol) ++ a.operand.symbols = [] ++ b.operand.symbols := by
    rw [hsymbols]
  exact operand_injective (a.operand.eq_of_suffix b.operand hsuffix).2

end Expr

end FileTags.Query
