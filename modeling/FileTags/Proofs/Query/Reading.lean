import FileTags.Proofs.Query.Grammar
/-! # What the reader accepts

The reader takes tokens one by one and keeps, for each level of parentheses, an expression for what
stands before the last connective there.  It accepts exactly the queries that have a derivation, and
answers with the expression of the derivation (`parse_iff_derives`).

* Every derivation is taken.  From a state that waits for an operand, the reader goes through the
  symbols of an operand and comes to the same state with the operand's expression in hand, and
  likewise for a row (`Operand.taken`, `Conjunction.taken`, `Disjunction.taken`).
* Whatever is taken is part of a derivation.  `Reader.Spells r xs` says that a state is what is left
  of the symbols `xs`: each expression in it is that of some part of a derivation, and these parts
  with the connectives and parentheses between them are the symbols.  One step keeps that
  (`Reader.Spells.step`), so a run does.
-/
namespace FileTags.Query

namespace Reader

/-- Takes tokens in order. -/
def advance (r : Reader) (ts : List Token) : Except Malformed Reader := ts.foldlM step r

@[simp] theorem advance_nil (r : Reader) : r.advance [] = .ok r := rfl

theorem advance_cons (r : Reader) (t : Token) (ts : List Token) :
    r.advance (t :: ts) = (r.step t >>= fun r' => r'.advance ts) := List.foldlM_cons ..

theorem advance_append (r : Reader) (ts us : List Token) :
    r.advance (ts ++ us) = (r.advance ts >>= fun r' => r'.advance us) := List.foldlM_append ..

theorem advance_append_of_ok {r r' : Reader} {ts : List Token} (h : r.advance ts = .ok r')
    (us : List Token) : r.advance (ts ++ us) = r'.advance us := by
  rw [advance_append, h]
  rfl

theorem advance_append_of_error {r : Reader} {ts : List Token} {m : Malformed}
    (h : r.advance ts = .error m) (us : List Token) : r.advance (ts ++ us) = .error m := by
  rw [advance_append, h]
  rfl

theorem advance_cons_of_ok {r r' : Reader} {t : Token} (h : r.step t = .ok r')
    (ts : List Token) : r.advance (t :: ts) = r'.advance ts := by
  rw [advance_cons, h]
  rfl

/-- Reading a query is taking its tokens and then finishing. -/
theorem run_eq (r : Reader) (length : Nat) (ts : List Token) :
    r.run length ts = (r.advance ts >>= fun r' => r'.finish length) := by
  induction ts generalizing r with
  | nil => rfl
  | cons t ts ih =>
    rw [run, advance_cons]
    cases r.step t with
    | error m => rfl
    | ok r' => exact ih r'

/-! What each symbol does, where it can be taken. -/

section Step
variable {outer : List Level} {level l : Level} {e : Expr} {t : Token}

theorem step_name {name : String} (ht : t.symbol = .name name) :
    step ⟨outer, level, none⟩ t = .ok ⟨outer, level, some (.tag name)⟩ := by
  rw [step, beforeOperand, ht]

theorem step_opening (ht : t.symbol = .opening) (hn : outer.length < maxNesting) :
    step ⟨outer, level, none⟩ t = .ok ⟨level :: outer, .empty, none⟩ := by
  rw [step, beforeOperand, ht]
  exact if_neg (Nat.not_le.2 hn)

theorem step_both (ht : t.symbol = .both) :
    step ⟨outer, level, some e⟩ t =
      .ok ⟨outer, ⟨level.alternatives, some (level.product e)⟩, none⟩ := by
  obtain ⟨_, p⟩ := t
  cases ht
  rfl

theorem step_either (ht : t.symbol = .either) :
    step ⟨outer, level, some e⟩ t = .ok ⟨outer, ⟨some (level.whole e), none⟩, none⟩ := by
  obtain ⟨_, p⟩ := t
  cases ht
  rfl

theorem step_closing (ht : t.symbol = .closing) :
    step ⟨l :: outer, level, some e⟩ t = .ok ⟨outer, l, some (level.whole e)⟩ := by
  obtain ⟨_, p⟩ := t
  cases ht
  rfl

end Step

end Reader

theorem parse_eq (query : String) :
    parse query = (Reader.start.advance (tokens query) >>= fun r => r.finish query.length) :=
  Reader.run_eq ..

/-! ## Every derivation is taken -/

open Level (joinOnto)

mutual

/-- An operand is taken wherever one must start, if its parentheses are not too many with those that
are open. -/
theorem Operand.taken : ∀ (o : Operand) (outer : List Level) {level : Level} {ts : List Token},
    outer.length + o.nesting ≤ maxNesting → ts.map Token.symbol = o.symbols →
    Reader.advance ⟨outer, level, none⟩ ts = .ok ⟨outer, level, some o.expr⟩
  | .tag name, outer, level, ts, _, hts => by
    obtain ⟨t, rfl, ht⟩ := List.map_eq_singleton_iff.1 hts
    rw [Reader.advance_cons_of_ok (Reader.step_name ht)]
    rfl
  | .group d, outer, level, ts, hn, hts => by
    obtain ⟨t, us, rfl, ht, hus⟩ := List.map_eq_cons_iff.1 hts
    obtain ⟨vs, ws, rfl, hvs, hws⟩ := List.map_eq_append_iff.1 hus
    obtain ⟨t', rfl, ht'⟩ := List.map_eq_singleton_iff.1 hws
    -- The level waits under the parenthesis and is the same when it closes.
    have hn' : outer.length + (d.nesting + 1) ≤ maxNesting := hn
    have hin : (level :: outer).length + d.nesting ≤ maxNesting := by
      rw [List.length_cons]
      omega
    obtain ⟨l, e, hd, he⟩ := d.taken (level :: outer) hin hvs
    rw [Reader.advance_cons_of_ok (Reader.step_opening ht (by omega)),
      Reader.advance_append_of_ok hd, Reader.advance_cons_of_ok (Reader.step_closing ht'), he]
    rfl

/-- A conjunction is taken at the start of a level or after "either"; its last operand is in hand,
the others are the factors. -/
theorem Conjunction.taken : ∀ (c : Conjunction) (outer : List Level) (alternatives : Option Expr)
    {ts : List Token}, outer.length + c.nesting ≤ maxNesting → ts.map Token.symbol = c.symbols →
    ∃ factors e, Reader.advance ⟨outer, ⟨alternatives, none⟩, none⟩ ts =
        .ok ⟨outer, ⟨alternatives, factors⟩, some e⟩ ∧ joinOnto .both factors e = c.expr
  | .one o, outer, alternatives, ts, hn, hts => ⟨none, o.expr, o.taken outer hn hts, rfl⟩
  | .more c o, outer, alternatives, ts, hn, hts => by
    obtain ⟨us, vs, rfl, hus, hvs⟩ := List.map_eq_append_iff.1 hts
    obtain ⟨t, ws, rfl, ht, hws⟩ := List.map_eq_cons_iff.1 hvs
    have hn' : outer.length + max c.nesting o.nesting ≤ maxNesting := hn
    obtain ⟨factors, e, hc, he⟩ := c.taken outer alternatives (by omega) hus
    -- At the connective the factors and the operand in hand become one expression.
    refine ⟨some c.expr, o.expr, ?_, rfl⟩
    rw [Reader.advance_append_of_ok hc, Reader.advance_cons_of_ok (Reader.step_both ht), ← he]
    exact o.taken outer (by omega) hws

/-- A disjunction is taken at the start of a level, and the level then holds all of it. -/
theorem Disjunction.taken : ∀ (d : Disjunction) (outer : List Level) {ts : List Token},
    outer.length + d.nesting ≤ maxNesting → ts.map Token.symbol = d.symbols →
    ∃ l e, Reader.advance ⟨outer, .empty, none⟩ ts = .ok ⟨outer, l, some e⟩ ∧ l.whole e = d.expr
  | .one c, outer, ts, hn, hts => by
    obtain ⟨factors, e, hc, he⟩ := c.taken outer none hn hts
    exact ⟨⟨none, factors⟩, e, hc, he⟩
  | .more d c, outer, ts, hn, hts => by
    obtain ⟨us, vs, rfl, hus, hvs⟩ := List.map_eq_append_iff.1 hts
    obtain ⟨t, ws, rfl, ht, hws⟩ := List.map_eq_cons_iff.1 hvs
    have hn' : outer.length + max d.nesting c.nesting ≤ maxNesting := hn
    obtain ⟨l, e, hd, he⟩ := d.taken outer (by omega) hus
    obtain ⟨factors, e', hc, he'⟩ :=
      c.taken outer (some d.expr) (by omega) hws
    refine ⟨⟨some d.expr, factors⟩, e', ?_, ?_⟩
    · rw [Reader.advance_append_of_ok hd, Reader.advance_cons_of_ok (Reader.step_either ht), he, hc]
    · rw [Level.whole, Level.product, he']
      rfl

end

/-- A query with a derivation is read as its expression. -/
theorem Derives.parse_eq_ok {query : String} {d : Disjunction} (h : Derives query d) :
    parse query = .ok d.expr := by
  obtain ⟨l, e, hd, he⟩ :=
    d.taken [] (by rw [List.length_nil, Nat.zero_add]; exact h.nesting_le)
      h.symbols_eq.symm
  have hd' : Reader.start.advance (tokens query) = .ok ⟨[], l, some e⟩ := hd
  rw [parse_eq, hd', ← he]
  rfl

/-! ## Whatever is taken is part of a derivation -/

/-- Symbols of an operand with this expression, in at most `n` levels of parentheses. -/
def IsOperand (n : Nat) (e : Expr) (xs : List Symbol) : Prop :=
  ∃ o : Operand, o.expr = e ∧ o.symbols = xs ∧ o.nesting ≤ n

/-- Symbols of a conjunction with this expression. -/
def IsConjunction (n : Nat) (e : Expr) (xs : List Symbol) : Prop :=
  ∃ c : Conjunction, c.expr = e ∧ c.symbols = xs ∧ c.nesting ≤ n

/-- Symbols of a disjunction with this expression. -/
def IsDisjunction (n : Nat) (e : Expr) (xs : List Symbol) : Prop :=
  ∃ d : Disjunction, d.expr = e ∧ d.symbols = xs ∧ d.nesting ≤ n

/-- Nothing yet, or symbols of some kind and the connective after them. -/
inductive Before (P : Expr → List Symbol → Prop) (connective : Symbol) :
    Option Expr → List Symbol → Prop where
  | nothing : Before P connective none []
  | some {e xs} (h : P e xs) : Before P connective (some e) (xs ++ [connective])

/-- **A level spells symbols**: those of its alternatives, then those of its factors. -/
inductive Level.Spells (n : Nat) (l : Level) : List Symbol → Prop where
  | mk {xs ys} (alternatives : Before (IsDisjunction n) .either l.alternatives xs)
      (factors : Before (IsConjunction n) .both l.factors ys) : Spells n l (xs ++ ys)

/-- The levels around a parenthesis spell symbols: each what it holds, and the parenthesis. -/
inductive SpellsOuter : List Level → List Symbol → Prop where
  | nil : SpellsOuter [] []
  | cons {l outer xs ys} (hn : outer.length < maxNesting) (h : SpellsOuter outer xs)
      (hl : l.Spells (maxNesting - outer.length) ys) :
      SpellsOuter (l :: outer) (xs ++ ys ++ [.opening])

/-- **A reader spells the symbols it has taken.** -/
inductive Reader.Spells : Reader → List Symbol → Prop where
  | beforeOperand {outer level xs ys} (h : SpellsOuter outer xs)
      (hl : level.Spells (maxNesting - outer.length) ys) : Spells ⟨outer, level, none⟩ (xs ++ ys)
  | afterOperand {outer level e xs ys zs} (h : SpellsOuter outer xs)
      (hl : level.Spells (maxNesting - outer.length) ys)
      (ho : IsOperand (maxNesting - outer.length) e zs) :
      Spells ⟨outer, level, some e⟩ (xs ++ ys ++ zs)

section Parts
variable {n : Nat} {e e' : Expr} {xs ys zs : List Symbol}

theorem isOperand_tag (n : Nat) (name : String) : IsOperand n (.tag name) [.name name] :=
  ⟨.tag name, rfl, rfl, Nat.zero_le n⟩

theorem IsDisjunction.group (h : IsDisjunction n e xs) :
    IsOperand (n + 1) e (.opening :: (xs ++ [.closing])) := by
  obtain ⟨d, rfl, rfl, hn⟩ := h
  exact ⟨.group d, rfl, rfl, Nat.succ_le_succ hn⟩

theorem IsOperand.one (h : IsOperand n e xs) : IsConjunction n e xs := by
  obtain ⟨o, rfl, rfl, hn⟩ := h
  exact ⟨.one o, rfl, rfl, hn⟩

theorem IsConjunction.more (h : IsConjunction n e xs) (h' : IsOperand n e' ys) :
    IsConjunction n (.join .both e e') (xs ++ .both :: ys) := by
  obtain ⟨c, rfl, rfl, hn⟩ := h
  obtain ⟨o, rfl, rfl, hn'⟩ := h'
  exact ⟨.more c o, rfl, rfl, Nat.max_le.2 ⟨hn, hn'⟩⟩

theorem IsConjunction.one (h : IsConjunction n e xs) : IsDisjunction n e xs := by
  obtain ⟨c, rfl, rfl, hn⟩ := h
  exact ⟨.one c, rfl, rfl, hn⟩

theorem IsDisjunction.more (h : IsDisjunction n e xs) (h' : IsConjunction n e' ys) :
    IsDisjunction n (.join .either e e') (xs ++ .either :: ys) := by
  obtain ⟨d, rfl, rfl, hn⟩ := h
  obtain ⟨c, rfl, rfl, hn'⟩ := h'
  exact ⟨.more d c, rfl, rfl, Nat.max_le.2 ⟨hn, hn'⟩⟩

namespace Level

theorem spells_empty (n : Nat) : Level.empty.Spells n [] := by
  have h : Level.empty.Spells n ([] ++ []) := .mk .nothing .nothing
  exact h

variable {l : Level}

theorem isConjunction_product (h : Before (IsConjunction n) .both l.factors ys)
    (ho : IsOperand n e zs) : IsConjunction n (l.product e) (ys ++ zs) := by
  obtain ⟨alternatives, factors⟩ := l
  cases h with
  | nothing => exact ho.one
  | some h =>
    rw [List.append_assoc]
    exact h.more ho

/-- A level with an operand at its end is a disjunction. -/
theorem Spells.isDisjunction_whole (h : l.Spells n ys) (ho : IsOperand n e zs) :
    IsDisjunction n (l.whole e) (ys ++ zs) := by
  obtain ⟨ha, hf⟩ := h
  have hp := isConjunction_product hf ho
  rw [Level.whole, List.append_assoc]
  generalize l.product e = p at hp
  obtain ⟨alternatives, factors⟩ := l
  cases ha with
  | nothing => exact hp.one
  | some h =>
    rw [List.append_assoc]
    exact h.more hp

theorem Spells.both (h : l.Spells n ys) (ho : IsOperand n e zs) :
    (Level.mk l.alternatives (some (l.product e))).Spells n (ys ++ zs ++ [.both]) := by
  obtain ⟨ha, hf⟩ := h
  rw [List.append_assoc, List.append_assoc, ← List.append_assoc _ zs]
  exact .mk ha (.some (isConjunction_product hf ho))

theorem Spells.either (h : l.Spells n ys) (ho : IsOperand n e zs) :
    (Level.mk (some (l.whole e)) none).Spells n (ys ++ zs ++ [.either]) := by
  rw [← List.append_nil (ys ++ zs ++ [Symbol.either])]
  exact .mk (.some (h.isDisjunction_whole ho)) .nothing

end Level

/-- **One step keeps what is spelled.** -/
theorem Reader.Spells.step {r r' : Reader} {t : Token} (h : r.Spells xs)
    (ht : r.step t = .ok r') : r'.Spells (xs ++ [t.symbol]) := by
  obtain ⟨s, p⟩ := t
  cases h with
  | beforeOperand h hl =>
    cases s with
    | name tag =>
      cases ht
      exact .afterOperand h hl (isOperand_tag _ tag)
    | opening =>
      rw [Reader.step, Reader.beforeOperand] at ht
      dsimp only at ht
      -- The test is what lets the new level be one of those that are left.
      split at ht
      · cases ht
      · rename_i hn
        cases ht
        have := Spells.beforeOperand (.cons (Nat.not_le.1 hn) h hl) (Level.spells_empty _)
        rwa [List.append_nil] at this
    | closing | both | either => cases ht
  | @afterOperand outer level e _ _ _ h hl ho =>
    cases s with
    | both =>
      cases ht
      rw [List.append_assoc, List.append_assoc, ← List.append_assoc _ _ [Symbol.both]]
      exact .beforeOperand h (hl.both ho)
    | either =>
      cases ht
      rw [List.append_assoc, List.append_assoc, ← List.append_assoc _ _ [Symbol.either]]
      exact .beforeOperand h (hl.either ho)
    | closing =>
      cases h with
      | nil => cases ht
      | @cons l outer _ _ hn h hl' =>
        cases ht
        -- All of the level, in its parentheses, is one operand of the level outside.
        have hg := (hl.isDisjunction_whole ho).group
        rw [List.length_cons, show maxNesting - (outer.length + 1) + 1 = maxNesting - outer.length by
          omega] at hg
        have := Spells.afterOperand h hl' hg
        simpa only [List.append_assoc, List.cons_append, List.nil_append] using this
    | name tag | opening => cases outer <;> cases ht

/-- So does a run. -/
theorem Reader.Spells.advance {r r' : Reader} {ts : List Token} (h : r.Spells xs)
    (ht : r.advance ts = .ok r') : r'.Spells (xs ++ ts.map Token.symbol) := by
  induction ts generalizing r xs with
  | nil =>
    cases ht
    rwa [List.map_nil, List.append_nil]
  | cons t ts ih =>
    rw [Reader.advance_cons] at ht
    cases hs : r.step t with
    | error m => rw [hs] at ht; cases ht
    | ok r₁ =>
      rw [hs] at ht
      rw [List.map_cons, List.append_cons]
      exact ih (h.step hs) ht

theorem Reader.spells_start : Reader.start.Spells [] :=
  .beforeOperand .nil (Level.spells_empty maxNesting)

end Parts

/-- A query that is read has a derivation with the expression that is read. -/
theorem exists_derives {query : String} {e : Expr} (h : parse query = .ok e) :
    ∃ d, Derives query d ∧ d.expr = e := by
  rw [parse_eq] at h
  cases hr : Reader.start.advance (tokens query) with
  | error m => rw [hr] at h; cases h
  | ok r =>
    rw [hr] at h
    have hs := Reader.spells_start.advance hr
    -- Only outside all parentheses and with an operand in hand can a query end.
    generalize hxs : [] ++ (tokens query).map Token.symbol = xs at hs
    cases hs with
    | beforeOperand _ _ => cases h
    | afterOperand ho hl hop =>
      cases ho with
      | cons _ _ _ => cases h
      | nil =>
        cases h
        obtain ⟨d, hd, hsym, hn⟩ := hl.isDisjunction_whole hop
        exact ⟨d, ⟨hsym.trans hxs.symm, hn⟩, hd⟩

/-- **The reader accepts exactly the grammar.**  A query is read as an expression exactly if it has a
derivation with that expression; the derivation is the only one; and a query without a derivation
is refused. -/
theorem parse_iff_derives (query : String) :
    (∀ e, parse query = .ok e ↔ ∃ d, Derives query d ∧ d.expr = e) ∧
      (∀ d d', Derives query d → Derives query d' → d = d') ∧
      ((¬ ∃ d, Derives query d) → ∃ m, parse query = .error m) := by
  refine ⟨fun e => ⟨exists_derives, ?_⟩, ?_, ?_⟩
  · rintro ⟨d, hd, rfl⟩
    exact hd.parse_eq_ok
  · intro d d' hd hd'
    exact Disjunction.symbols_injective (hd.symbols_eq.trans hd'.symbols_eq.symm)
  · intro hno
    cases h : parse query with
    | ok e =>
      obtain ⟨d, hd, -⟩ := exists_derives h
      exact absurd ⟨d, hd⟩ hno
    | error m => exact ⟨m, rfl⟩

end FileTags.Query
