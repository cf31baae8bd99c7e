import FileTags.Query.Expr
/-! # Chains

What is done with an expression is done operand by operand, so that a long chain is gone through in
a loop.  This module says why the result is that of going down both sides of every join
(`Expr.chains_as_trees`).

* An expression is the chain of its operands, joined from the left, and the first of them is not
  joined by the same connective (`Expr.operandsOf_eq_cons_iff`).  So the connective and the operands
  determine the expression, and expressions with the same operands are the same.
* Truth, text, structure, hash and sameness each go by a scheme: what to make of a tag, and what to
  make of a chain from the results for its operands (`Scheme.Gives`).
* For truth, text and structure, a longer chain is a shorter one combined with its last operand
  (`Scheme.Leans`).  That is all it takes for the scheme to come to the same as plain recursion
  (`Scheme.Gives.eq_fold`).
-/
namespace FileTags.Query

namespace Expr

/-- The connective at the root; a tag has none. -/
def kind : Expr → Option Connective
  | .tag _ => none
  | .join op _ _ => some op

/-! ## The operands of a chain -/

theorem operandsOf_foldl (op : Connective) (e : Expr) (rest : List Expr) :
    operandsOf op (rest.foldl (.join op) e) = operandsOf op e ++ rest := by
  induction rest generalizing e with
  | nil => simp
  | cons o rest ih => simp [ih]

theorem operandsOf_of_kind {op : Connective} {e : Expr} (h : e.kind ≠ some op) :
    operandsOf op e = [e] := by
  cases e with
  | tag name => rfl
  | join op' l r => exact operandsOf_join_of_ne (fun hop => h (congrArg some hop)) l r

theorem exists_of_kind {op : Connective} {e : Expr} (h : e.kind = some op) :
    ∃ l r, e = .join op l r := by
  cases e with
  | tag name => cases h
  | join op' l r =>
    obtain rfl : op' = op := Option.some.inj h
    exact ⟨l, r, rfl⟩

theorem operands_of_kind {op : Connective} {e : Expr} (h : e.kind = some op) :
    operands e = operandsOf op e := by
  obtain ⟨l, r, rfl⟩ := exists_of_kind h
  rfl

/-- Every expression is the chain of its operands. -/
theorem exists_chain (op : Connective) (e : Expr) :
    ∃ (first : Expr) (rest : List Expr),
      first.kind ≠ some op ∧ e = rest.foldl (.join op) first := by
  induction e with
  | tag name => exact ⟨.tag name, [], nofun, rfl⟩
  | join op' l r ihl _ =>
    by_cases hop : op' = op
    · -- The right side is one operand more, whatever it is.
      subst hop
      obtain ⟨first, rest, hfirst, rfl⟩ := ihl
      exact ⟨first, rest ++ [r], hfirst, by simp⟩
    · exact ⟨.join op' l r, [], fun h => hop (Option.some.inj h), rfl⟩

/-- **An expression is the chain of its operands, and of no others** that start with something else
than a chain of the same connective. -/
theorem operandsOf_eq_cons_iff {op : Connective} {e first : Expr} {rest : List Expr} :
    operandsOf op e = first :: rest ↔ first.kind ≠ some op ∧ e = rest.foldl (.join op) first := by
  constructor
  · intro h
    obtain ⟨first', rest', hfirst, rfl⟩ := exists_chain op e
    rw [operandsOf_foldl, operandsOf_of_kind hfirst, List.singleton_append] at h
    obtain ⟨rfl, rfl⟩ := List.cons.inj h
    exact ⟨hfirst, rfl⟩
  · rintro ⟨hfirst, rfl⟩
    rw [operandsOf_foldl, operandsOf_of_kind hfirst, List.singleton_append]

theorem operandsOf_ne_nil (op : Connective) (e : Expr) : operandsOf op e ≠ [] := by
  obtain ⟨first, rest, hchain⟩ := exists_chain op e
  rw [operandsOf_eq_cons_iff.2 hchain]
  exact List.cons_ne_nil _ _

theorem operandsOf_injective {op : Connective} {a b : Expr}
    (h : operandsOf op a = operandsOf op b) : a = b := by
  obtain ⟨first, rest, hchain⟩ := exists_chain op b
  rw [operandsOf_eq_cons_iff.2 hchain] at h
  rw [(operandsOf_eq_cons_iff.1 h).2, hchain.2]

/-- **Kind and operands determine an expression.** -/
theorem eq_of_operands {a b : Expr} (hkind : a.kind = b.kind) (h : a.operands = b.operands) :
    a = b := by
  cases hop : b.kind with
  | some op =>
    rw [operands_of_kind (hkind.trans hop), operands_of_kind hop] at h
    exact operandsOf_injective h
  | none =>
    cases a with
    | join op l r => cases hkind.trans hop
    | tag name =>
      cases b with
      | join op l r => cases hop
      | tag name' => exact List.singleton_inj.1 h

end Expr

/-! ## Going by a scheme -/

/-- One level of what is done with an expression: what to make of a tag, and of a chain from the
results for its operands. -/
structure Scheme (α : Type) where
  tag : String → α
  chain : Connective → List α → α

namespace Scheme

variable {α : Type} {s : Scheme α} {f : Expr → α} {combine : Connective → α → α → α}

open FileTags.Query.Expr (operands operandsOf)

/-- A function goes by a scheme, all the way down. -/
structure Gives (s : Scheme α) (f : Expr → α) : Prop where
  tag : ∀ name, f (.tag name) = s.tag name
  chain : ∀ op l r, f (.join op l r) = s.chain op ((operands (.join op l r)).map f)

/-- A chain is folded from the left: one operand is itself, and one operand more is combined with the
chain before it. -/
structure Leans (s : Scheme α) (combine : Connective → α → α → α) : Prop where
  one : ∀ op a, s.chain op [a] = a
  more : ∀ op as a, as ≠ [] → s.chain op (as ++ [a]) = combine op (s.chain op as) a

/-- Folded over the operands, the scheme gives the result for the expression, whichever connective
the expression has. -/
theorem Gives.chain_operandsOf (h : s.Gives f) (hl : s.Leans combine) (op : Connective) (e : Expr) :
    s.chain op ((operandsOf op e).map f) = f e := by
  by_cases hop : e.kind = some op
  · obtain ⟨l, r, rfl⟩ := Expr.exists_of_kind hop
    exact (h.chain op l r).symm
  · rw [Expr.operandsOf_of_kind hop]
    exact hl.one op (f e)

/-- **A join is its sides combined**, although the scheme never looks at the left side as a whole. -/
theorem Gives.join (h : s.Gives f) (hl : s.Leans combine) (op : Connective) (l r : Expr) :
    f (.join op l r) = combine op (f l) (f r) := by
  have hne : (operandsOf op l).map f ≠ [] := by
    rw [Ne, List.map_eq_nil_iff]
    exact Expr.operandsOf_ne_nil op l
  rw [h.chain, Expr.operands_join, List.map_append, List.map_singleton, hl.more op _ _ hne,
    h.chain_operandsOf hl]

end Scheme

namespace Expr

/-- Plain recursion: both sides of every join, and then what becomes of the two results. -/
def fold {α : Type} (leaf : String → α) (combine : Connective → α → α → α) : Expr → α
  | .tag name => leaf name
  | .join op l r => combine op (l.fold leaf combine) (r.fold leaf combine)

end Expr

/-- **Going by a scheme that leans comes to the same as plain recursion.** -/
theorem Scheme.Gives.eq_fold {α : Type} {s : Scheme α} {f : Expr → α}
    {combine : Connective → α → α → α} (h : s.Gives f) (hl : s.Leans combine) (e : Expr) :
    f e = e.fold s.tag combine := by
  induction e with
  | tag name => exact h.tag name
  | join op l r ihl ihr => rw [h.join hl, ihl, ihr, Expr.fold]

/-! ## Truth -/

/-- What a connective makes of two truths. -/
def Connective.truth : Connective → Bool → Bool → Bool
  | .both => and
  | .either => or

/-- All operands of "both" must hold, some operand of "either". -/
def truthScheme (tagged : String → Bool) : Scheme Bool where
  tag := tagged
  chain
    | .both, truths => truths.all id
    | .either, truths => truths.any id

theorem truthScheme_gives (tagged : String → Bool) :
    (truthScheme tagged).Gives (Expr.holds tagged) where
  tag name := by rw [Expr.holds]; rfl
  chain op l r := by
    rw [← List.attach_map_val]
    cases op with
    | both =>
      show _ = (List.map _ _).all id
      rw [Expr.holds, List.all_map]
      rfl
    | either =>
      show _ = (List.map _ _).any id
      rw [Expr.holds, List.any_map]
      rfl

theorem truthScheme_leans (tagged : String → Bool) :
    (truthScheme tagged).Leans Connective.truth where
  one op a := by cases op <;> simp [truthScheme]
  more op as a _ := by cases op <;> simp [truthScheme, Connective.truth]

/-! ## Text and structure -/

namespace Expr

theorem foldChain_concat (combine : String → String → String) {xs : List String} (h : xs ≠ [])
    (x : String) : foldChain combine (xs ++ [x]) = combine (foldChain combine xs) x := by
  obtain ⟨first, rest, rfl⟩ := List.exists_cons_of_ne_nil h
  rw [List.cons_append, foldChain, foldChain, List.foldl_append]
  rfl

/-- Two texts joined by a connective. -/
def joined (op : Connective) (text operand : String) : String :=
  "(" ++ text ++ " " ++ op.symbol ++ " " ++ operand ++ ")"

/-- Two structures in words, and the name of what joins them. -/
def described (op : Connective) (text operand : String) : String :=
  op.name ++ "(" ++ text ++ ", " ++ operand ++ ")"

end Expr

/-- The texts of the operands, folded from the left. -/
def foldScheme (tag : String → String) (combine : Connective → String → String → String) :
    Scheme String where
  tag := tag
  chain op := Expr.foldChain (combine op)

theorem foldScheme_leans (tag : String → String) (combine : Connective → String → String → String) :
    (foldScheme tag combine).Leans combine where
  one _ _ := rfl
  more op _ a h := Expr.foldChain_concat (combine op) h a

theorem toText_gives : (foldScheme id Expr.joined).Gives Expr.toText where
  tag name := by rw [Expr.toText]; rfl
  chain op l r := by
    rw [Expr.toText, List.attach_map_val]
    rfl

theorem shown_gives (quote : String → String) :
    (foldScheme (fun name => "Literal(name=" ++ quote name ++ ")") Expr.described).Gives
      (Expr.shown quote) where
  tag name := by rw [Expr.shown]; rfl
  chain op l r := by
    rw [Expr.shown, List.attach_map_val]
    rfl

/-! ## Hash and sameness -/

/-- The hashes of the operands, mixed into that of the connective's name. -/
def hashScheme (hashName : String → UInt64) : Scheme UInt64 where
  tag := hashName
  chain op hashes := hashes.foldl mixHash (hashName op.name)

theorem hashWith_gives (hashName : String → UInt64) :
    (hashScheme hashName).Gives (Expr.hashWith hashName) where
  tag name := by rw [Expr.hashWith]; rfl
  chain op l r := by
    rw [Expr.hashWith, List.attach_map_val]
    rfl

/-- What compares an expression with another: a chain compares its operands, one by one, with those
of a chain of the same connective and length. -/
def sameScheme : Scheme (Expr → Bool) where
  tag name
    | .tag name' => name == name'
    | .join .. => false
  chain op tests
    | .tag _ => false
    | .join op' l r =>
      op = op' && tests.length == (Expr.operands (.join op' l r)).length
        && (tests.zip (Expr.operands (.join op' l r))).all fun pair => pair.1 pair.2

theorem same_gives : sameScheme.Gives Expr.same where
  tag name := by
    funext b
    cases b with
    | tag name' =>
      rw [Expr.same]
      rfl
    | join op l r =>
      -- The case for what is not alike asks that neither of the others applies.
      rw [Expr.same]
      · rfl
      all_goals intros; contradiction
  chain op l r := by
    funext b
    cases b with
    | tag name =>
      rw [Expr.same]
      · rfl
      all_goals intros; contradiction
    | join op' l' r' =>
      rw [Expr.same, ← List.attach_map_val]
      simp only [sameScheme, List.length_map, List.length_attach, List.zip_map_left, List.all_map]
      rfl

/-- Tests of expressions, one for each of a row, are passed by that row alone. -/
theorem all_tests_iff {xs ys : List Expr} {test : Expr → Expr → Bool}
    (h : ∀ x ∈ xs, ∀ y, test x y = true ↔ x = y) :
    (xs.length = ys.length ∧ ((xs.map test).zip ys).all (fun pair => pair.1 pair.2) = true) ↔
      xs = ys := by
  induction xs generalizing ys with
  | nil => cases ys <;> simp
  | cons x xs ih =>
    obtain ⟨hx, hxs⟩ := List.forall_mem_cons.1 h
    cases ys with
    | nil => simp
    | cons y ys =>
      rw [List.cons.injEq, ← ih hxs, ← hx y]
      simp only [List.length_cons, Nat.add_right_cancel_iff, List.map_cons, List.zip_cons_cons,
        List.all_cons, Bool.and_eq_true]
      exact and_left_comm

namespace Expr

/-- **Expressions are the same if and only if they are equal**, node for node. -/
theorem same_iff : ∀ a b : Expr, same a b = true ↔ a = b
  | .tag name, b => by
    rw [same_gives.tag]
    cases b with
    | tag name' => simp [sameScheme]
    | join op l r => simp [sameScheme]
  | .join op l r, b => by
    have ih : ∀ o ∈ operands (.join op l r), ∀ b, same o b = true ↔ o = b :=
      fun o ho b => same_iff o b
    rw [same_gives.chain]
    cases b with
    | tag name => simp [sameScheme]
    | join op' l' r' =>
      simp only [sameScheme, Bool.and_eq_true, decide_eq_true_eq, beq_iff_eq, List.length_map]
      rw [and_assoc, all_tests_iff ih]
      constructor
      · rintro ⟨rfl, hoperands⟩
        exact eq_of_operands rfl hoperands
      · intro h
        rw [h]
        exact ⟨(Expr.join.inj h).1, rfl⟩
termination_by a => sizeOf a
decreasing_by exact sizeOf_lt_of_mem_operands ho

/-- **Going by chains comes to the same as going down both sides of every join.** -/
theorem chains_as_trees (a b : Expr) :
    (∀ tagged, a.holds tagged = a.fold tagged Connective.truth) ∧
      (same a b = true ↔ a = b) ∧
      (same a b = true → ∀ hashName, a.hashWith hashName = b.hashWith hashName) ∧
      a.toText = a.fold id joined ∧
      (∀ quote, a.shown quote =
        a.fold (fun name => "Literal(name=" ++ quote name ++ ")") described) ∧
      (a.kind = b.kind → a.operands = b.operands → a = b) ∧
      ∀ op, a.kind = some op →
        ∃ first rest, a.operands = first :: rest ∧ first.kind ≠ some op ∧
          a = rest.foldl (.join op) first := by
  refine ⟨fun tagged => ?_, same_iff a b, fun h hashName => ?_, ?_, fun quote => ?_, eq_of_operands,
    fun op hop => ?_⟩
  · exact (truthScheme_gives tagged).eq_fold (truthScheme_leans tagged) a
  · rw [(same_iff a b).1 h]
  · exact toText_gives.eq_fold (foldScheme_leans id joined) a
  · exact (shown_gives quote).eq_fold (foldScheme_leans _ described) a
  · obtain ⟨first, rest, hchain⟩ := exists_chain op a
    refine ⟨first, rest, ?_, hchain⟩
    rw [operands_of_kind hop, operandsOf_eq_cons_iff.2 hchain]

/-- A chain whose last operand is a chain of the same connective, which is not merged into it. -/
theorem chains_as_trees_of_nested :
    let a : Expr := .join .both (.join .both (.tag "a") (.tag "b")) (.join .both (.tag "c") (.tag "d"))
    a.holds (["d", "a", "c", "b"].contains ·) = true ∧
      same a a = true ∧ a.hashWith hash = a.hashWith hash ∧
      a.toText = "((a & b) & (c & d))" ∧
      a.shown id = "And(And(Literal(name=a), Literal(name=b)), And(Literal(name=c), Literal(name=d)))" ∧
      a.kind = some .both ∧
      ∃ first rest, a.operands = first :: rest ∧ first.kind ≠ some .both ∧
        a = rest.foldl (.join .both) first := by
  intro a
  obtain ⟨htruth, hsame, hhash, htext, hshown, -, hchain⟩ := chains_as_trees a a
  exact ⟨(htruth _).trans (by decide), hsame.2 rfl, hhash (hsame.2 rfl) hash,
    htext.trans (by decide), (hshown id).trans (by decide), rfl, hchain .both rfl⟩

end Expr

end FileTags.Query
