import FileTags.Proofs.Query.Reading
import FileTags.Proofs.Query.Text
import Mathlib.Data.Nat.Find
import Mathlib.Order.Bounds.Basic
/-! # Reading a text back

The text of an expression is read back as that expression exactly if no path to a tag has more
joins than parentheses may be nested (`parse_toText`).  An expression that is not too high has a
derivation, so it is among the queries that are read.  One that is too high is refused at the first
parenthesis that is one too many.

That place is said of the characters alone: a parenthesis opens as the `n`th if the characters up
to it have `n - 1` more opening than closing ones (`OpensAt`).  In a join it is the outermost one, or
one in a side that is one less deep there (`Expr.Named.opensAt_join`).  So the side that holds the
first one too many is known, and a left side that does not hold it is taken as a whole.
-/
namespace FileTags.Query

/-! ## Where parentheses open -/

/-- How many more parentheses are opened than closed. -/
def balance (cs : List Char) : Int := cs.count '(' - cs.count ')'

/-- **A parenthesis opens at a position as the `n`th of those that are open there.** -/
structure OpensAt (cs : List Char) (n : Int) (p : Nat) : Prop where
  opening : cs[p]? = some '('
  depth : balance (cs.take p) + 1 = n

theorem balance_append (xs ys : List Char) : balance (xs ++ ys) = balance xs + balance ys := by
  simp only [balance, List.count_append]
  omega

theorem OpensAt.lt_length {cs : List Char} {n : Int} {p : Nat} (h : OpensAt cs n p) :
    p < cs.length := (List.getElem?_eq_some_iff.1 h.opening).1

/-- After characters, a parenthesis opens as much deeper as they leave open. -/
theorem opensAt_append {xs ys : List Char} {n : Int} {p : Nat} :
    OpensAt (xs ++ ys) n p ↔
      OpensAt xs n p ∨ ∃ q, p = xs.length + q ∧ OpensAt ys (n - balance xs) q := by
  constructor
  · rintro ⟨hopening, hdepth⟩
    rcases Nat.lt_or_ge p xs.length with hp | hp
    · rw [List.getElem?_append_left hp] at hopening
      rw [List.take_append_of_le_length (Nat.le_of_lt hp)] at hdepth
      exact Or.inl ⟨hopening, hdepth⟩
    · obtain ⟨q, rfl⟩ := Nat.exists_eq_add_of_le hp
      rw [List.getElem?_append_right hp, Nat.add_sub_cancel_left] at hopening
      rw [List.take_length_add_append, balance_append] at hdepth
      exact Or.inr ⟨q, rfl, hopening, by omega⟩
  · rintro (h | ⟨q, rfl, hopening, hdepth⟩)
    · have hp := h.lt_length
      refine ⟨?_, ?_⟩
      · rw [List.getElem?_append_left hp]
        exact h.opening
      · rw [List.take_append_of_le_length (Nat.le_of_lt hp)]
        exact h.depth
    · refine ⟨?_, ?_⟩
      · rw [List.getElem?_append_right (Nat.le_add_right ..), Nat.add_sub_cancel_left]
        exact hopening
      · rw [List.take_length_add_append, balance_append]
        omega

theorem not_opensAt {cs : List Char} (h : '(' ∉ cs) (n : Int) (p : Nat) : ¬ OpensAt cs n p :=
  fun ho => h (List.mem_of_getElem? ho.opening)

theorem opensAt_opening {n : Int} {p : Nat} : OpensAt ['('] n p ↔ p = 0 ∧ n = 1 := by
  constructor
  · intro h
    have hp : p = 0 := Nat.lt_one_iff.1 h.lt_length
    subst hp
    exact ⟨rfl, h.depth.symm⟩
  · rintro ⟨rfl, rfl⟩
    exact ⟨rfl, rfl⟩

/-- Characters that open no parenthesis, and leave as many open as before, only move the places. -/
theorem opensAt_append_right {xs ys : List Char} (hopening : '(' ∉ xs) (hbalance : balance xs = 0)
    {n : Int} {p : Nat} :
    OpensAt (xs ++ ys) n p ↔ ∃ q, p = xs.length + q ∧ OpensAt ys n q := by
  rw [opensAt_append, or_iff_right (not_opensAt hopening n p), hbalance, Int.sub_zero]

/-- Nor do they open one at the end. -/
theorem opensAt_append_left {xs ys : List Char} (hopening : '(' ∉ ys) {n : Int} {p : Nat} :
    OpensAt (xs ++ ys) n p ↔ OpensAt xs n p := by
  rw [opensAt_append]
  refine or_iff_left ?_
  rintro ⟨q, -, h⟩
  exact not_opensAt hopening _ q h

namespace Expr

/-- What stands between the sides of a join. -/
def between (op : Connective) : List Char := [' ', op.char, ' ']

theorem opening_not_mem_between (op : Connective) : '(' ∉ between op := by
  cases op <;> decide

theorem balance_between (op : Connective) : balance (between op) = 0 := by cases op <;> rfl

theorem chars_join_eq_append (op : Connective) (l r : Expr) :
    chars (.join op l r) = ['('] ++ (l.chars ++ (between op ++ (r.chars ++ [')']))) := chars_join ..

theorem Named.balance_chars {e : Expr} (h : e.Named) : balance e.chars = 0 := by
  induction e with
  | tag name =>
    have hname := (h name (List.mem_singleton_self name)).chars
    have hopening : '(' ∉ name.toList := fun hm => Bool.false_ne_true (hname _ hm)
    have hclosing : ')' ∉ name.toList := fun hm => Bool.false_ne_true (hname _ hm)
    rw [chars_tag, balance, List.count_eq_zero_of_not_mem hopening,
      List.count_eq_zero_of_not_mem hclosing]
    rfl
  | join op l r ihl ihr =>
    rw [chars_join_eq_append, balance_append, balance_append, balance_append, balance_append,
      balance_between, ihl h.sides.1, ihr h.sides.2]
    rfl

theorem Named.not_opensAt_tag {name : String} (h : (tag name).Named) (n : Int) (p : Nat) :
    ¬ OpensAt (tag name).chars n p := by
  rw [chars_tag]
  exact not_opensAt
    (fun hm => Bool.false_ne_true ((h name (List.mem_singleton_self name)).chars _ hm)) n p

/-- **Where parentheses open in a join**: at its start, or in a side and one deeper than there. -/
theorem Named.opensAt_join {op : Connective} {l r : Expr} (h : (join op l r).Named) {n : Int}
    {p : Nat} :
    OpensAt (join op l r).chars n p ↔
      (p = 0 ∧ n = 1) ∨ (∃ q, p = 1 + q ∧ OpensAt l.chars (n - 1) q) ∨
        ∃ q, p = l.chars.length + 4 + q ∧ OpensAt r.chars (n - 1) q := by
  have hright : ∀ q, OpensAt (between op ++ (r.chars ++ [')'])) (n - 1) q ↔
      ∃ q', q = 3 + q' ∧ OpensAt r.chars (n - 1) q' := by
    intro q
    rw [opensAt_append_right (opening_not_mem_between op) (balance_between op)]
    simp only [opensAt_append_left (show '(' ∉ [')'] by decide)]
    rfl
  rw [chars_join_eq_append, opensAt_append, opensAt_opening]
  refine or_congr_right ?_
  have hone : balance ['('] = 1 := rfl
  simp only [hone, opensAt_append, h.sides.1.balance_chars, Int.sub_zero, hright,
    List.length_singleton]
  constructor
  · rintro ⟨q, rfl, hq | ⟨q₁, rfl, q₂, rfl, hq⟩⟩
    · exact Or.inl ⟨q, rfl, hq⟩
    · exact Or.inr ⟨q₂, by omega, hq⟩
  · rintro (⟨q, rfl, hq⟩ | ⟨q, rfl, hq⟩)
    · exact ⟨q, rfl, Or.inl hq⟩
    · exact ⟨l.chars.length + (3 + q), by omega, Or.inr ⟨3 + q, rfl, q, rfl, hq⟩⟩

theorem Named.one_le_of_opensAt {e : Expr} (h : e.Named) {n : Int} {p : Nat}
    (ho : OpensAt e.chars n p) : 1 ≤ n := by
  induction e generalizing n p with
  | tag name => exact absurd ho (h.not_opensAt_tag n p)
  | join op l r ihl ihr =>
    rcases h.opensAt_join.1 ho with ⟨-, rfl⟩ | ⟨q, -, hq⟩ | ⟨q, -, hq⟩
    · exact Int.le_refl 1
    · have := ihl h.sides.1 hq
      omega
    · have := ihr h.sides.2 hq
      omega

/-- Parentheses open as deep as the expression is high. -/
theorem Named.exists_opensAt {e : Expr} (h : e.Named) {n : Int} (hn : 1 ≤ n)
    (hheight : n ≤ e.height) : ∃ p, OpensAt e.chars n p := by
  induction e generalizing n with
  | tag name =>
    have hzero : n ≤ 0 := hheight
    omega
  | join op l r ihl ihr =>
    by_cases hone : n = 1
    · exact ⟨0, h.opensAt_join.2 (Or.inl ⟨rfl, hone⟩)⟩
    have hheight' : n ≤ (max l.height r.height + 1 : Nat) := hheight
    -- The higher side has one more level than is missing here.
    rcases Nat.le_total r.height l.height with hlr | hlr
    · obtain ⟨q, hq⟩ := ihl h.sides.1 (n := n - 1) (by omega) (by omega)
      exact ⟨1 + q, h.opensAt_join.2 (Or.inr (Or.inl ⟨q, rfl, hq⟩))⟩
    · obtain ⟨q, hq⟩ := ihr h.sides.2 (n := n - 1) (by omega) (by omega)
      exact ⟨l.chars.length + 4 + q, h.opensAt_join.2 (Or.inr (Or.inr ⟨q, rfl, hq⟩))⟩

theorem Named.exists_isLeast_opensAt {e : Expr} (h : e.Named) {n : Int} (hn : 1 ≤ n)
    (hheight : n ≤ e.height) : ∃ p, IsLeast {p | OpensAt e.chars n p} p := by
  classical
  have hex := h.exists_opensAt hn hheight
  exact ⟨Nat.find hex, Nat.find_spec hex, fun q hq => Nat.find_min' hex hq⟩

/-! The first place in a join is the first one of the side that it is in, and a left side before it
is not that high. -/

section First
variable {op : Connective} {l r : Expr} {n : Int} {q : Nat}

theorem Named.isLeast_left (h : (join op l r).Named)
    (hp : IsLeast {p | OpensAt (join op l r).chars n p} (1 + q)) (hq : OpensAt l.chars (n - 1) q) :
    IsLeast {p | OpensAt l.chars (n - 1) p} q := by
  refine ⟨hq, fun q' hq' => ?_⟩
  have := hp.2 (h.opensAt_join.2 (Or.inr (Or.inl ⟨q', rfl, hq'⟩)))
  omega

theorem Named.isLeast_right (h : (join op l r).Named)
    (hp : IsLeast {p | OpensAt (join op l r).chars n p} (l.chars.length + 4 + q))
    (hq : OpensAt r.chars (n - 1) q) : IsLeast {p | OpensAt r.chars (n - 1) p} q := by
  refine ⟨hq, fun q' hq' => ?_⟩
  have := hp.2 (h.opensAt_join.2 (Or.inr (Or.inr ⟨q', rfl, hq'⟩)))
  omega

theorem Named.height_left_lt (h : (join op l r).Named) (hn : 1 ≤ n - 1)
    (hp : IsLeast {p | OpensAt (join op l r).chars n p} (l.chars.length + 4 + q)) :
    l.height < n - 1 := by
  by_contra hlt
  obtain ⟨q', hq'⟩ := h.sides.1.exists_opensAt hn (Int.not_lt.1 hlt)
  have hle := hp.2 (h.opensAt_join.2 (Or.inr (Or.inl ⟨q', rfl, hq'⟩)))
  have hlength := hq'.lt_length
  omega

end First

end Expr

/-! ## Reading -/

theorem Reader.step_opening_refused {outer : List Level} {level : Level} {t : Token}
    (ht : t.symbol = .opening) (hn : maxNesting ≤ outer.length) :
    step ⟨outer, level, none⟩ t = .error ⟨.nestedTooDeeply, t.position, some "("⟩ := by
  obtain ⟨_, p⟩ := t
  cases ht
  exact if_pos hn

theorem Reader.step_connective {op : Connective} {outer : List Level} {level : Level} {e : Expr}
    {t : Token} (ht : t.symbol = op.token) :
    ∃ level', step ⟨outer, level, some e⟩ t = .ok ⟨outer, level', none⟩ := by
  cases op with
  | both => exact ⟨_, step_both ht⟩
  | either => exact ⟨_, step_either ht⟩

namespace Expr

/-- An expression that fits is taken as an operand. -/
theorem taken (e : Expr) {outer : List Level} {level : Level} {position : Nat}
    (hn : outer.length + e.height ≤ maxNesting) :
    Reader.advance ⟨outer, level, none⟩ (e.tokensFrom position) = .ok ⟨outer, level, some e⟩ := by
  rw [← operand_nesting] at hn
  rw [e.operand.taken outer hn (e.tokensFrom_symbols position), operand_expr]

/-- **A text is refused at the first parenthesis that is one too many** with those that are open
around it. -/
theorem Named.refused {e : Expr} (h : e.Named) {outer : List Level} {level : Level}
    {n : Int} {p position : Nat} (hp : IsLeast {p | OpensAt e.chars n p} p)
    (hn : outer.length + n = maxNesting + 1) :
    Reader.advance ⟨outer, level, none⟩ (e.tokensFrom position) =
      .error ⟨.nestedTooDeeply, (position + p : Nat), some "("⟩ := by
  induction e generalizing outer level n p position with
  | tag name => exact absurd hp.1 (h.not_opensAt_tag n p)
  | join op l r ihl ihr =>
    obtain ⟨hl, hr⟩ := h.sides
    rw [tokensFrom]
    rcases h.opensAt_join.1 hp.1 with ⟨rfl, rfl⟩ | ⟨q, rfl, hq⟩ | ⟨q, rfl, hq⟩
    · -- The parenthesis of the join itself is one too many.
      rw [Reader.advance_cons, Reader.step_opening_refused rfl (by omega)]
      rfl
    · -- The one too many is in the left side, which is read first.
      have hone := hl.one_le_of_opensAt hq
      have hleft : Reader.advance ⟨level :: outer, .empty, none⟩ (l.tokensFrom (position + 1)) =
          .error ⟨.nestedTooDeeply, (position + 1 + q : Nat), some "("⟩ :=
        ihl hl (h.isLeast_left hp hq) (by rw [List.length_cons]; omega)
      rw [Reader.advance_cons_of_ok (Reader.step_opening rfl (by omega)),
        Reader.advance_append_of_error hleft, Nat.add_assoc]
    · -- It is in the right side: the left one has none, so it fits and is taken.
      have hone := hr.one_le_of_opensAt hq
      have hfits := h.height_left_lt hone hp
      have hleft : Reader.advance ⟨level :: outer, .empty, none⟩ (l.tokensFrom (position + 1)) =
          .ok ⟨level :: outer, .empty, some l⟩ :=
        l.taken (by rw [List.length_cons]; omega)
      obtain ⟨level', hop⟩ : ∃ level', Reader.step ⟨level :: outer, .empty, some l⟩
          ⟨op.token, position + l.chars.length + 2⟩ = .ok ⟨level :: outer, level', none⟩ :=
        Reader.step_connective rfl
      have hright : Reader.advance ⟨level :: outer, level', none⟩
          (r.tokensFrom (position + l.chars.length + 4)) =
          .error ⟨.nestedTooDeeply, (position + l.chars.length + 4 + q : Nat), some "("⟩ :=
        ihr hr (h.isLeast_right hp hq) (by rw [List.length_cons]; omega)
      rw [Reader.advance_cons_of_ok (Reader.step_opening rfl (by omega)),
        Reader.advance_append_of_ok hleft, Reader.advance_cons_of_ok hop,
        Reader.advance_append_of_error hright]
      have hplace : position + l.chars.length + 4 + q = position + (l.chars.length + 4 + q) := by
        omega
      rw [hplace]

/-- The derivation of a text is the operand of its expression. -/
theorem Named.derives {e : Expr} (h : e.Named) (hn : e.height ≤ maxNesting) :
    Derives e.toText (.one (.one e.operand)) := by
  constructor
  · rw [h.tokens_toText, e.tokensFrom_symbols 0]
    rfl
  · rw [← operand_nesting] at hn
    exact hn

/-- **Reading inverts rendering up to the limit of nesting.**  The text of an expression whose names
a query can hold is read back as the expression if it is no higher than parentheses may be nested;
if it is higher, its text is refused at the first parenthesis nested one deeper than that; and at
any height, no other such expression has its text. -/
theorem parse_toText {e : Expr} (h : e.Named) :
    (e.height ≤ maxNesting → parse e.toText = .ok e) ∧
      (maxNesting < e.height → ∃ p, IsLeast {p | OpensAt e.toText.toList (maxNesting + 1) p} p ∧
        parse e.toText = .error ⟨.nestedTooDeeply, p, some "("⟩) ∧
      ∀ e' : Expr, e'.Named → e'.toText = e.toText → e' = e := by
  refine ⟨?_, ?_, fun e' h' heq => h'.eq_of_toText_eq h heq⟩
  · intro hn
    rw [(h.derives hn).parse_eq_ok]
    exact congrArg Except.ok e.operand_expr
  · intro hn
    obtain ⟨p, hp⟩ := h.exists_isLeast_opensAt (n := maxNesting + 1) (by omega) (by omega)
    refine ⟨p, hp, ?_⟩
    have hrefused : Reader.start.advance (e.tokensFrom 0) =
        .error ⟨.nestedTooDeeply, (0 + p : Nat), some "("⟩ :=
      h.refused hp (by rw [List.length_nil]; omega)
    rw [parse_eq, h.tokens_toText, hrefused, Nat.zero_add]
    rfl

/-- A flat chain of one name. -/
def chain : Nat → Expr
  | 0 => .tag "a"
  | joins + 1 => .join .both (chain joins) (.tag "a")

theorem chain_height (joins : Nat) : (chain joins).height = joins := by
  induction joins with
  | zero => rfl
  | succ joins ih => rw [chain, height, ih, height, Nat.max_zero]

theorem chain_named (joins : Nat) : (chain joins).Named := by
  induction joins with
  | zero => exact List.forall_mem_singleton.2 isName_a
  | succ joins ih => exact List.forall_mem_append.2 ⟨ih, List.forall_mem_singleton.2 isName_a⟩

/-- A chain of 65 operands is the longest that is read back; the text of the next one is refused. -/
theorem parse_toText_of_chains :
    parse (chain 64).toText = .ok (chain 64) ∧
      (∃ p, IsLeast {p | OpensAt (chain 65).toText.toList (maxNesting + 1) p} p ∧
        parse (chain 65).toText = .error ⟨.nestedTooDeeply, p, some "("⟩) ∧
      (chain 64).toText ≠ (chain 65).toText := by
  refine ⟨(parse_toText (chain_named 64)).1 ?_, (parse_toText (chain_named 65)).2.1 ?_, ?_⟩
  · rw [chain_height]
    decide
  · rw [chain_height]
    decide
  · intro h
    have heq := (parse_toText (chain_named 65)).2.2 (chain 64) (chain_named 64) h
    have hheight := congrArg height heq
    rw [chain_height, chain_height] at hheight
    omega

end Expr

end FileTags.Query
