import FileTags.Proofs.Query.Layout
import FileTags.Proofs.Query.Reading
import Mathlib
/-! # Where a query goes wrong

A query that is refused is refused as early as can be, and no earlier (`refused_at_first_offence`).
If the error names a token, that token stands in the text where the error says; the tokens before it
begin some query of the grammar (`Begins`), and with it they begin none.  If the error names no
token, the whole text begins a longer query, so it is only at the end that something is missing.

Three facts carry this.

* Whatever the reader has taken can be completed: with an operand if one is due, and with the
  parentheses that are open (`Reader.completion`).  Only closing ones are added, so the limit of
  nesting is no obstacle.
* The reader goes by symbols and not by positions (`Reader.advance_congr`).  So what it takes in one
  text it takes in any text with the same symbols, and what it refuses it refuses there too.
* Symbols that stand in one text can be written in another (`exists_text`), and that is what makes
  a completion a query.
-/
namespace FileTags.Query

/-! ## Tokens in their text -/

/-- The token is read off the text at its position. -/
theorem Token.StandsIn.slice {t : Token} {query : String} (h : t.StandsIn 0 query.toList)
    (hne : t.symbol.text ≠ "") :
    t.position < query.length ∧
      (query.toList.drop t.position).take t.symbol.text.length = t.symbol.text.toList := by
  obtain ⟨before, after, hquery, hposition⟩ := h
  have hlength : 0 < t.symbol.text.toList.length :=
    List.length_pos_iff.2 (mt String.toList_eq_nil_iff.1 hne)
  rw [Nat.zero_add] at hposition
  rw [← String.length_toList, ← String.length_toList, hquery, hposition]
  refine ⟨?_, ?_⟩
  · rw [List.length_append, List.length_append]
    omega
  · rw [List.drop_left, List.take_left]

/-! ## Texts with given symbols -/

/-- Symbols with a blank after each. -/
def spell (xs : List Symbol) : List Char := xs.flatMap fun s => s.text.toList ++ [' ']

theorem scan_spell {xs : List Symbol} (h : ∀ s ∈ xs, s.IsWritten) (position : Nat) :
    (scan position (spell xs)).map Token.symbol = xs := by
  induction xs generalizing position with
  | nil => rw [spell, List.flatMap_nil, scan_nil, List.map_nil]
  | cons s xs ih =>
    obtain ⟨hs, hxs⟩ := List.forall_mem_cons.1 h
    have hspell : spell (s :: xs) = s.text.toList ++ ' ' :: spell xs := by
      rw [spell, List.flatMap_cons, List.append_assoc]
      rfl
    rw [hspell, hs.scan_append position fun _ _ => endsName_cons rfl _, scan_space, List.map_cons,
      ih hxs]

/-- **Whatever symbols a text can hold, some text has them.** -/
theorem exists_text {xs : List Symbol} (h : ∀ s ∈ xs, s.IsWritten) :
    ∃ query : String, (tokens query).map Token.symbol = xs := by
  refine ⟨String.ofList (spell xs), ?_⟩
  rw [tokens, String.toList_ofList]
  exact scan_spell h 0

/-! ## What the reader goes by -/

namespace Reader

/-- Whether a token can be taken, and what that does, is decided by its symbol. -/
theorem step_congr {r r' : Reader} {t u : Token} (h : t.symbol = u.symbol)
    (ht : r.step t = .ok r') : r.step u = .ok r' := by
  obtain ⟨s, p⟩ := t
  obtain ⟨s', q⟩ := u
  cases h
  obtain ⟨outer, level, operand⟩ := r
  cases operand with
  | none =>
    cases s with
    | name tag => exact ht
    | opening =>
      rw [step, beforeOperand] at ht ⊢
      dsimp only at ht ⊢
      split at ht
      · cases ht
      · rename_i hn
        rwa [if_neg hn]
    | closing | both | either => cases ht
  | some e =>
    cases s with
    | both | either => exact ht
    | closing =>
      cases outer with
      | nil => cases ht
      | cons l outer => exact ht
    | name tag | opening => cases outer <;> cases ht

/-- **So a run goes by the symbols alone.** -/
theorem advance_congr {r r' : Reader} {ts us : List Token}
    (h : ts.map Token.symbol = us.map Token.symbol) (ht : r.advance ts = .ok r') :
    r.advance us = .ok r' := by
  induction ts generalizing r us with
  | nil =>
    rw [List.map_nil] at h
    rw [List.map_eq_nil_iff.1 h.symm]
    exact ht
  | cons t ts ih =>
    obtain ⟨u, us', rfl, hu, hus⟩ := List.map_eq_cons_iff.1 h.symm
    rw [advance_cons] at ht
    cases hs : r.step t with
    | error m => rw [hs] at ht; cases ht
    | ok r₁ =>
      rw [hs] at ht
      rw [advance_cons_of_ok (step_congr hu.symm hs)]
      exact ih hus.symm ht

/-- A token that is refused is the one that the error names. -/
theorem step_error {r : Reader} {t : Token} {m : Malformed} (h : r.step t = .error m) :
    m.position = t.position ∧ m.token = some t.symbol.text := by
  have hrefuse : ∃ reason, m = refuse reason t := by
    obtain ⟨s, p⟩ := t
    obtain ⟨outer, level, operand⟩ := r
    cases operand with
    | none =>
      cases s with
      | name tag => cases h
      | opening =>
        rw [step, beforeOperand] at h
        dsimp only at h
        split at h <;> cases h
        exact ⟨_, rfl⟩
      | closing | both | either => cases h; exact ⟨_, rfl⟩
    | some e =>
      cases s with
      | both | either => cases h
      | closing | name tag | opening => cases outer <;> cases h <;> exact ⟨_, rfl⟩
  obtain ⟨reason, rfl⟩ := hrefuse
  exact ⟨rfl, rfl⟩

/-- A run that fails has taken all tokens before one that is refused. -/
theorem advance_error {r : Reader} {ts : List Token} {m : Malformed}
    (h : r.advance ts = .error m) :
    ∃ before t after r', ts = before ++ t :: after ∧ r.advance before = .ok r' ∧
      r'.step t = .error m := by
  induction ts generalizing r with
  | nil => cases h
  | cons t ts ih =>
    rw [advance_cons] at h
    cases hs : r.step t with
    | error m' =>
      rw [hs] at h
      cases h
      exact ⟨[], t, ts, r, rfl, rfl, hs⟩
    | ok r₁ =>
      rw [hs] at h
      obtain ⟨before, t', after, r', rfl, hbefore, ht'⟩ := ih h
      refine ⟨t :: before, t', after, r', rfl, ?_, ht'⟩
      rw [advance_cons_of_ok hs]
      exact hbefore

/-! ## Completing what was taken -/

/-- Symbols with which a query can end here: an operand if one is due, and what closes the
parentheses that are open. -/
def completion (r : Reader) : List Symbol :=
  (if r.operand.isNone then [.name "a"] else []) ++ List.replicate r.outer.length .closing

theorem completion_written (r : Reader) : ∀ s ∈ r.completion, s.IsWritten := by
  intro s hs
  rcases List.mem_append.1 hs with hs | hs
  · split at hs
    · rw [List.mem_singleton.1 hs]
      exact isName_a
    · cases hs
  · rw [List.eq_of_mem_replicate hs]
    trivial

theorem closings_taken {outer : List Level} {level : Level} {e : Expr} {ts : List Token}
    (h : ts.map Token.symbol = List.replicate outer.length .closing) :
    ∃ l e', advance ⟨outer, level, some e⟩ ts = .ok ⟨[], l, some e'⟩ := by
  -- Each closing parenthesis takes the innermost level that is open.
  induction outer generalizing level e ts with
  | nil =>
    rw [List.length_nil, List.replicate_zero] at h
    rw [List.map_eq_nil_iff.1 h]
    exact ⟨level, e, rfl⟩
  | cons l outer ih =>
    rw [List.length_cons, List.replicate_succ] at h
    obtain ⟨t, ts', rfl, ht, hts⟩ := List.map_eq_cons_iff.1 h
    rw [advance_cons_of_ok (step_closing ht)]
    exact ih hts

/-- **From any state, the completion is taken** and leaves a whole query. -/
theorem completion_taken {r : Reader} {ts : List Token}
    (h : ts.map Token.symbol = r.completion) :
    ∃ l e, r.advance ts = .ok ⟨[], l, some e⟩ := by
  obtain ⟨outer, level, operand⟩ := r
  cases operand with
  | none =>
    obtain ⟨t, ts', rfl, ht, hts⟩ := List.map_eq_cons_iff.1 h
    rw [advance_cons_of_ok (step_name ht)]
    exact closings_taken hts
  | some e => exact closings_taken h

/-- A query that cannot end here has something missing. -/
theorem finish_error {r : Reader} {length : Nat} {m : Malformed}
    (h : r.finish length = .error m) :
    m.position = length ∧ m.token = none ∧ r.completion ≠ [] := by
  obtain ⟨outer, level, operand⟩ := r
  cases operand with
  | none =>
    cases h
    exact ⟨rfl, rfl, List.cons_ne_nil _ _⟩
  | some e =>
    cases outer with
    | nil => cases h
    | cons l outer =>
      cases h
      exact ⟨rfl, rfl, List.cons_ne_nil _ _⟩

end Reader

/-! ## How queries begin -/

/-- **Symbols begin a query**: some query of the grammar starts with them, or has no others. -/
def Begins (xs : List Symbol) : Prop :=
  ∃ query d, Derives query d ∧ xs <+: (tokens query).map Token.symbol

section Begins
variable {query : String} {before after : List Token} {r : Reader}

/-- What the reader has taken of a text is completed to a query. -/
theorem exists_completed (htokens : tokens query = before ++ after)
    (hr : Reader.start.advance before = .ok r) :
    ∃ completed d, Derives completed d ∧
      (tokens completed).map Token.symbol = before.map Token.symbol ++ r.completion := by
  have hwritten : ∀ s ∈ before.map Token.symbol ++ r.completion, s.IsWritten := by
    intro s hs
    rcases List.mem_append.1 hs with hs | hs
    · obtain ⟨t, ht, rfl⟩ := List.mem_map.1 hs
      have hmem : t ∈ tokens query := by
        rw [htokens]
        exact List.mem_append_left _ ht
      exact (mem_scan hmem).2
    · exact r.completion_written s hs
  obtain ⟨completed, hsymbols⟩ := exists_text hwritten
  obtain ⟨us, vs, htokens', hus, hvs⟩ := List.map_eq_append_iff.1 hsymbols
  have htaken : Reader.start.advance us = .ok r := Reader.advance_congr hus.symm hr
  obtain ⟨l, e, hend⟩ := Reader.completion_taken hvs
  have hread : parse completed = .ok (l.whole e) := by
    rw [parse_eq, htokens', Reader.advance_append_of_ok htaken, hend]
    rfl
  obtain ⟨d, hd, -⟩ := exists_derives hread
  exact ⟨completed, d, hd, hsymbols⟩

theorem begins_of_advance (htokens : tokens query = before ++ after)
    (hr : Reader.start.advance before = .ok r) : Begins (before.map Token.symbol) := by
  obtain ⟨completed, d, hd, hsymbols⟩ := exists_completed htokens hr
  exact ⟨completed, d, hd, by rw [hsymbols]; exact List.prefix_append ..⟩

/-- No query begins with what the reader has taken and a token that it refuses. -/
theorem not_begins_of_step_error {t : Token} {m : Malformed}
    (hr : Reader.start.advance before = .ok r) (ht : r.step t = .error m) :
    ¬ Begins ((before ++ [t]).map Token.symbol) := by
  rintro ⟨other, d, hd, rest, hrest⟩
  rw [List.map_append] at hrest
  obtain ⟨us, vs, hother, hus, -⟩ := List.map_eq_append_iff.1 hrest.symm
  obtain ⟨us, ws, rfl, hbefore, hws⟩ := List.map_eq_append_iff.1 hus
  obtain ⟨u, rfl, hu⟩ := List.map_eq_singleton_iff.1 hws
  -- In the other query the reader comes to the same state, and to a token with the same symbol.
  have htaken : Reader.start.advance us = .ok r := Reader.advance_congr hbefore.symm hr
  have hread := hd.parse_eq_ok
  rw [parse_eq, hother, List.append_assoc, Reader.advance_append_of_ok htaken,
    List.singleton_append, Reader.advance_cons] at hread
  cases hs : r.step u with
  | error m' =>
    rw [hs] at hread
    cases hread
  | ok r' =>
    have hsame := Reader.step_congr hu hs
    rw [ht] at hsame
    cases hsame

end Begins

/-- **A query is refused at its first offence.**  An error without a token is at the end of the text,
and the whole text is a proper beginning of a query.  An error with a token names one of the text's
tokens with its place and its characters; the tokens before it begin a query, and together with it
they do not. -/
theorem refused_at_first_offence {query : String} {m : Malformed} (h : parse query = .error m) :
    (m.token = none → m.position = query.length ∧
      ∃ longer d more, Derives longer d ∧ more ≠ [] ∧
        (tokens longer).map Token.symbol = (tokens query).map Token.symbol ++ more) ∧
    ∀ text, m.token = some text → ∃ before t after, tokens query = before ++ t :: after ∧
      m.position = t.position ∧ text = t.symbol.text ∧ t.position < query.length ∧
      (query.toList.drop t.position).take text.length = text.toList ∧
      Begins (before.map Token.symbol) ∧ ¬ Begins ((before ++ [t]).map Token.symbol) := by
  rw [parse_eq] at h
  cases hr : Reader.start.advance (tokens query) with
  | ok r =>
    rw [hr] at h
    obtain ⟨hposition, htoken, hne⟩ := Reader.finish_error h
    refine ⟨fun _ => ⟨hposition, ?_⟩, fun text htext => ?_⟩
    · obtain ⟨longer, d, hd, hsymbols⟩ := exists_completed (List.append_nil _).symm hr
      exact ⟨longer, d, r.completion, hd, hne, hsymbols⟩
    · rw [htoken] at htext
      cases htext
  | error m' =>
    rw [hr] at h
    cases h
    obtain ⟨before, t, after, r, htokens, hbefore, ht⟩ := Reader.advance_error hr
    obtain ⟨hposition, htoken⟩ := Reader.step_error ht
    refine ⟨fun hnone => ?_, fun text htext => ?_⟩
    · rw [htoken] at hnone
      cases hnone
    · rw [htoken] at htext
      cases htext
      have hmem : t ∈ tokens query := by
        rw [htokens]
        exact List.mem_append_right _ List.mem_cons_self
      obtain ⟨hstands, hwritten⟩ := mem_scan hmem
      obtain ⟨hlt, hslice⟩ := hstands.slice hwritten.text_ne_empty
      exact ⟨before, t, after, htokens, hposition, rfl, hlt, hslice,
        begins_of_advance htokens hbefore, not_begins_of_step_error hbefore ht⟩

/-- A second operand without a connective is named where it stands; an operand that is due at the end
is missing there. -/
theorem refused_at_first_offence_of_operands :
    (parse "(a b" = .error ⟨.expectedClosing, 3, some "b"⟩ ∧
      ∃ before t after, tokens "(a b" = before ++ t :: after ∧ (3 : Int) = t.position ∧
        "b" = t.symbol.text ∧ t.position < "(a b".length ∧
        ("(a b".toList.drop t.position).take "b".length = "b".toList ∧
        Begins (before.map Token.symbol) ∧ ¬ Begins ((before ++ [t]).map Token.symbol)) ∧
    (parse "a & " = .error ⟨.unexpectedEnd, 4, none⟩ ∧ (4 : Int) = "a & ".length ∧
      ∃ longer d more, Derives longer d ∧ more ≠ [] ∧
        (tokens longer).map Token.symbol = (tokens "a & ").map Token.symbol ++ more) := by
  have hgroup : parse "(a b" = .error ⟨.expectedClosing, 3, some "b"⟩ := by cbv
  have hend : parse "a & " = .error ⟨.unexpectedEnd, 4, none⟩ := by cbv
  exact ⟨⟨hgroup, (refused_at_first_offence hgroup).2 "b" rfl⟩,
    ⟨hend, (refused_at_first_offence hend).1 rfl⟩⟩

end FileTags.Query
