import FileTags.Proofs.Toml.Text
import FileTags.Proofs.Toml.Values
/-! # How documents are read

What one statement of a document comes to is said once (`StatementRead`).  So a text that is nested too
deeply has more brackets and braces than a third of the room (`openings_of_read`).
-/
namespace FileTags.Toml

variable {d d' : Document} {cs rest : List Char} {fault : ReadFault} {s : String}

/-! ## Statements -/

/-- **What reading a statement comes to.** -/
inductive StatementRead (d : Document) (cs : List Char) :
    Except ReadFault (Document × List Char) → Prop where
  | malformed : StatementRead d cs (.error .malformed)
  | comment : StatementRead d cs (.ok (d, cs))
  | openNext {key : Key} {d' : Document} {rest : List Char}
      (opened : d.endSection.openNext key = some d') (left : rest <:+ cs) :
      StatementRead d cs (.ok (d', rest))
  | openTable {key : Key} {d' : Document} {rest : List Char}
      (opened : d.endSection.openTable key = some d') (left : rest <:+ cs) :
      StatementRead d cs (.ok (d', rest))
  | fault {fuel : Nat} {start : List Char} {fault : ReadFault} (key : start <:+ cs)
      (entry : value fuel fullRoom start = .error fault) : StatementRead d cs (.error fault)
  | assign {fuel : Nat} {start rest : List Char} {key : Key} {v : Value} {d' : Document}
      (left : start <:+ cs) (entry : value fuel fullRoom start = .ok (v, rest))
      (assigned : d.assign key v = some d') : StatementRead d cs (.ok (d', rest))

theorem statementRead (d : Document) (cs : List Char) : StatementRead d cs (statement d cs) := by
  rw [statement.eq_def]
  split
  · rename_i inner
    have hspace := (List.dropWhile_suffix isSpace (l := inner)).trans ⟨['[', '['], rfl⟩
    dsimp only
    split
    · rename_i key rest hkey
      have hrest := ((List.suffix_cons ']' rest).trans (List.suffix_cons ']' _)).trans
        (leaves_key? _ _ _ hkey)
      cases hopen : d.endSection.openNext key with
      | none => exact .malformed
      | some d' => exact .openNext hopen (hrest.trans hspace)
    · exact .malformed
  · rename_i inner _
    have hspace := (List.dropWhile_suffix isSpace (l := inner)).trans (List.suffix_cons '[' inner)
    dsimp only
    split
    · rename_i key rest hkey
      have hrest := (List.suffix_cons ']' rest).trans (leaves_key? _ _ _ hkey)
      cases hopen : d.endSection.openTable key with
      | none => exact .malformed
      | some d' => exact .openTable hopen (hrest.trans hspace)
    · exact .malformed
  · exact .comment
  · split
    · rename_i key rest hkey
      have hstart : rest.dropWhile isSpace <:+ cs :=
        ((List.dropWhile_suffix _).trans (List.suffix_cons '=' rest)).trans (leaves_key? _ _ _ hkey)
      cases hentry : value (2 * rest.length + 2) fullRoom (rest.dropWhile isSpace) with
      | error fault => exact .fault hstart hentry
      | ok found =>
        obtain ⟨v, after⟩ := found
        cases hassign : d.assign key v with
        | none =>
          simp only [bind, Except.bind, hassign]
          exact .malformed
        | some d' =>
          simp only [bind, Except.bind, hassign]
          exact .assign hstart hentry hassign
    · exact .malformed

theorem statement_suffix (h : statement d cs = .ok (d', rest)) : rest <:+ cs := by
  have hread := statementRead d cs
  generalize statement d cs = r at hread h
  cases hread with
  | malformed | fault => cases h
  | comment =>
    obtain ⟨-, rfl⟩ := Prod.mk.inj (Except.ok.inj h)
    exact List.suffix_refl _
  | openNext opened left | openTable opened left =>
    obtain ⟨-, rfl⟩ := Prod.mk.inj (Except.ok.inj h)
    exact left
  | assign left entry assigned =>
    obtain ⟨-, rfl⟩ := Prod.mk.inj (Except.ok.inj h)
    exact (value_suffix entry).trans left

/-- **What reading statements comes to**: nothing is left to read, or a statement is read and then others
are. -/
inductive StatementsRead (fuel : Nat) (d : Document) (cs : List Char) :
    Except ReadFault Document → Prop where
  | malformed : StatementsRead fuel d cs (.error .malformed)
  | done : StatementsRead fuel d cs (.ok d)
  | blank {rest : List Char} (left : rest <:+ cs) : StatementsRead fuel d cs (statements fuel d rest)
  | fault {start : List Char} {fault : ReadFault} (left : start <:+ cs)
      (first : statement d start = .error fault) : StatementsRead fuel d cs (.error fault)
  | last {start rest : List Char} {d' : Document} (left : start <:+ cs)
      (first : statement d start = .ok (d', rest)) : StatementsRead fuel d cs (.ok d')
  | more {start after rest : List Char} {d' : Document} (left : start <:+ cs)
      (first : statement d start = .ok (d', after)) (next : rest <:+ after) :
      StatementsRead fuel d cs (statements fuel d' rest)

theorem statementsRead (fuel : Nat) (d : Document) (cs : List Char) :
    StatementsRead fuel d cs (statements (fuel + 1) d cs) := by
  rw [statements]
  have hspace := List.dropWhile_suffix isSpace (l := cs)
  split
  · exact .done
  · rename_i rest hline
    rw [hline] at hspace
    exact .blank ((List.suffix_cons _ _).trans hspace)
  · cases hfirst : statement d (cs.dropWhile isSpace) with
    | error fault => exact .fault hspace hfirst
    | ok found =>
      obtain ⟨d', after⟩ := found
      dsimp only [bind, Except.bind]
      split
      · exact .last hspace hfirst
      · rename_i rest hcomment
        have hrest := (List.suffix_cons '\n' rest).trans
          ((skipComment_suffix hcomment).trans (List.dropWhile_suffix _))
        exact .more hspace hfirst hrest
      · exact .malformed

/-- A document of one statement. -/
theorem read_of_statement {c : Char} (hs : s.toList = c :: cs) (hreturn : '\r' ∉ c :: cs)
    (hspace : isSpace c = false) (hline : c ≠ '\n') (h : statement .empty (c :: cs) = .ok (d, [])) :
    read s = .ok d.root := by
  have hfront : (c :: cs).dropWhile isSpace = c :: cs :=
    List.dropWhile_cons_of_neg (by rw [hspace]; exact Bool.false_ne_true)
  have hlines : ∀ fuel, statements (fuel + 1) .empty (c :: cs) = .ok d := by
    intro fuel
    rw [statements, hfront]
    split
    · rename_i heq
      cases heq
    · rename_i heq
      exact absurd (List.cons.inj heq).1 hline
    · rw [h]
      rfl
  rw [read, hs, joinLineEnds_of_notMem hreturn, hlines]
  rfl

/-! ## Documents that are too deep -/

theorem openings_of_statement {c : Option Container} (h : statement d cs = .error (.tooDeep c)) :
    fullRoom < 3 * cs.countP opensAny := by
  have hread := statementRead d cs
  generalize statement d cs = r at hread h
  cases hread with
  | malformed | comment | openNext | openTable | assign => cases h
  | fault key entry =>
    obtain rfl := Except.error.inj h
    have hless := (openings_of_tooDeep _).1 _ _ entry
    have hcount := countP_of_suffix key
    omega

theorem openings_of_statements {c : Option Container} {fuel : Nat}
    (h : statements fuel d cs = .error (.tooDeep c)) : fullRoom < 3 * cs.countP opensAny := by
  induction fuel generalizing d cs with
  | zero => cases h
  | succ fuel ih =>
    have hread := statementsRead fuel d cs
    generalize statements (fuel + 1) d cs = r at hread h
    cases hread with
    | malformed | done | last => cases h
    | blank left =>
      have hless := ih h
      have hcount := countP_of_suffix left
      omega
    | fault left first =>
      obtain rfl := Except.error.inj h
      have hless := openings_of_statement first
      have hcount := countP_of_suffix left
      omega
    | more left first next =>
      have hless := ih h
      have hcount := countP_of_suffix ((next.trans (statement_suffix first)).trans left)
      omega

theorem joinLineEnds_sublist (cs : List Char) : (joinLineEnds cs).Sublist cs := by
  fun_induction joinLineEnds cs with
  | case1 rest ih => exact (ih.cons_cons '\n').cons '\r'
  | case2 c rest _ ih => exact ih.cons_cons c
  | case3 => exact .slnil

/-- **In a document that is nested too deeply there are too many openings.** -/
theorem openings_of_read {c : Option Container} (h : read s = .error (.tooDeep c)) :
    fullRoom < 3 * s.toList.countP opensAny := by
  rw [read] at h
  cases hlines : statements ((joinLineEnds s.toList).length + 1) .empty (joinLineEnds s.toList) with
  | ok d =>
    rw [hlines] at h
    cases h
  | error fault =>
    rw [hlines] at h
    obtain rfl := Except.error.inj h
    have hless := openings_of_statements hlines
    have hcount : _ ≤ s.toList.countP opensAny := (joinLineEnds_sublist s.toList).countP_le
    omega

end FileTags.Toml
