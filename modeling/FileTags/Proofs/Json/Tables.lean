import FileTags.Proofs.Json.Values
/-! # Texts that are read as tables

What a text is read as shows at its front: if it is a table, the first character that is no blank opens
one (`brace_of_read`).  For the reader knows from the outermost of its lists and tables what the whole
will be, and no token changes that (`endsInTable_of_step?`).
-/
namespace FileTags.Json

/-- Whether a value is a table. -/
def IsTable : Value → Prop
  | .table _ => True
  | _ => False

/-! ## The first token -/

/-- A token that neither opens a table nor is one. -/
def Token.Tame : Token → Prop
  | .openTable => False
  | .plain v => ¬ IsTable v
  | _ => True

theorem Token.IsPlain.tame {t : Token} (h : t.IsPlain) : t.Tame := by
  cases t with
  | plain v =>
    cases h <;> exact id
  | openTable => exact h
  | _ => exact trivial

/-- Only a brace opens a table. -/
theorem tame_scanToken {c : Char} (hc : c ≠ '\x7b') (cs : List Char) : (scanToken c cs).1.Tame := by
  by_cases hmark : c ∈ marks
  · simp only [marks, List.mem_cons, List.not_mem_nil, or_false] at hmark
    rcases hmark with rfl | rfl | rfl | rfl | rfl | rfl | rfl
    · exact trivial
    · exact trivial
    · exact absurd rfl hc
    · exact trivial
    · exact trivial
    · exact trivial
    · rcases scanToken_quote cs with ⟨s, hs⟩ | hhalf | hfault
      · rw [hs]
        exact trivial
      · rw [hhalf]
        exact trivial
      · rw [hfault]
        exact trivial
  · exact (isPlain_scanToken hmark cs).tame

/-- The first token is that of the first character that is no blank. -/
theorem scan_front (cs : List Char) : Token.scan cs = [] ∨ ∃ gaps c rest more,
    cs = gaps ++ c :: rest ∧ (∀ g ∈ gaps, isGap g = true) ∧
      Token.scan cs = (scanToken c rest).1 :: more := by
  induction cs with
  | nil => exact .inl (by rw [Token.scan])
  | cons c cs ih =>
    rw [Token.scan]
    split
    · rename_i hgap
      rcases ih with hnone | ⟨gaps, c', rest, more, hcs, hgaps, hscan⟩
      · exact .inl hnone
      · refine .inr ⟨c :: gaps, c', rest, more, ?_, ?_, hscan⟩
        · rw [hcs, List.cons_append]
        · exact List.forall_mem_cons.2 ⟨hgap, hgaps⟩
    · exact .inr ⟨[], c, cs, _, rfl, List.forall_mem_nil _, rfl⟩

/-! ## The outermost table -/

namespace Reader

/-- Whether a list or table that is open is a table. -/
def FrameIsTable : Frame → Prop
  | .list _ => False
  | .table _ _ => True

/-- Whether what comes of a reader without open lists and tables can be a table. -/
def AwaitsTable : Awaiting → Prop
  | .value => True
  | .firstItem => False
  | .firstKey _ => True
  | .key _ => True
  | .colon _ _ => True
  | .after v => IsTable v

/-- **Whether what comes of a reader can be a table**: the outermost of what is open is one. -/
def EndsInTable (stack : List Frame) (awaiting : Awaiting) : Prop :=
  match stack.getLast? with
  | some frame => FrameIsTable frame
  | none => AwaitsTable awaiting

theorem endsInTable_cons {frame : Frame} {stack : List Frame} {a b : Awaiting}
    (h : EndsInTable (frame :: stack) a) (hframe : ¬ FrameIsTable frame) : EndsInTable stack b := by
  cases stack with
  | nil => exact absurd h hframe
  | cons f stack => exact h

/-- What is open below the innermost decides, if anything is. -/
theorem endsInTable_below {stack : List Frame} {a b : Awaiting} (h : EndsInTable stack a)
    (hnone : stack = [] → AwaitsTable b) : EndsInTable stack b := by
  cases stack with
  | nil => exact hnone rfl
  | cons f stack => exact h

theorem endsInTable_under {stack : List Frame} {a b : Awaiting} (frame : Frame)
    (h : EndsInTable stack a) (hnone : stack = [] → FrameIsTable frame) :
    EndsInTable (frame :: stack) b := by
  cases stack with
  | nil => exact hnone rfl
  | cons f stack => exact h

theorem stack_of_value? {stack : List Frame} {token : Token} {next : Reader}
    (h : value? stack token = some next) : next.stack = stack := by
  cases token <;> cases h <;> rfl

theorem endsInTable_of_after? {v : Value} {stack : List Frame} {token : Token} {next : Reader}
    (h : after? v stack token = some next) (hnext : EndsInTable next.stack next.awaiting) :
    EndsInTable stack (.after v) := by
  rw [after?.eq_def] at h
  split at h
  · obtain rfl := Option.some.inj h
    have hbelow : EndsInTable _ (.after v) := endsInTable_cons hnext id
    exact endsInTable_under _ hbelow fun hnil => by
      rw [hnil] at hnext
      exact hnext
  · obtain rfl := Option.some.inj h
    exact endsInTable_under _ hnext fun hnil => by
      rw [hnil] at hnext
      exact hnext
  · obtain rfl := Option.some.inj h
    exact endsInTable_under _ hnext fun _ => trivial
  · obtain rfl := Option.some.inj h
    exact endsInTable_under _ hnext fun _ => trivial
  · cases h

/-- **No token makes a table of what was none.** -/
theorem endsInTable_of_step? {r next : Reader} {token : Token} (h : r.step? token = some next)
    (hnext : EndsInTable next.stack next.awaiting) : EndsInTable r.stack r.awaiting := by
  rw [step?.eq_def] at h
  split at h
  · rename_i hawaiting
    rw [stack_of_value? h] at hnext
    rw [hawaiting]
    exact endsInTable_below hnext fun _ => trivial
  · rename_i hawaiting
    obtain rfl := Option.some.inj h
    rw [hawaiting]
    refine endsInTable_below hnext fun hnil => ?_
    rw [hnil] at hnext
    exact hnext
  · rename_i hawaiting _
    rw [stack_of_value? h] at hnext
    rw [hawaiting]
    exact endsInTable_cons hnext id
  · rename_i hawaiting
    obtain rfl := Option.some.inj h
    rw [hawaiting]
    exact endsInTable_below hnext fun _ => trivial
  · rename_i hawaiting _
    obtain ⟨k, -, rfl⟩ := Option.map_eq_some_iff.1 h
    rw [hawaiting]
    exact endsInTable_below hnext fun _ => trivial
  · rename_i hawaiting
    obtain ⟨k, -, rfl⟩ := Option.map_eq_some_iff.1 h
    rw [hawaiting]
    exact endsInTable_below hnext fun _ => trivial
  · rename_i hawaiting
    obtain rfl := Option.some.inj h
    rw [hawaiting]
    cases hstack : r.stack with
    | nil => exact trivial
    | cons f stack =>
      rw [hstack] at hnext
      exact hnext
  · rename_i hawaiting
    rw [hawaiting]
    exact endsInTable_of_after? h hnext
  · cases h

/-- If the whole is a table, it could be one all along. -/
theorem endsInTable_of_run {r : Reader} {tokens : List Token} {v : Value}
    (h : r.run tokens = .ok v) (hv : IsTable v) : EndsInTable r.stack r.awaiting := by
  induction tokens generalizing r with
  | nil =>
    rw [run, finish] at h
    split at h
    · rename_i hstack hawaiting
      obtain rfl := Except.ok.inj h
      rw [hstack, hawaiting]
      exact hv
    · cases h
  | cons token tokens ih =>
    rw [run] at h
    split at h
    · cases h
    · rename_i next _ hstep
      exact endsInTable_of_step? hstep (ih h)
    · cases h

/-- A tame token at the start does not begin a table. -/
theorem not_endsInTable_of_tame {token : Token} {next : Reader} (ht : token.Tame)
    (h : start.step? token = some next) : ¬ EndsInTable next.stack next.awaiting := by
  cases token with
  | openTable => exact ht.elim
  | openList | text s | halfPair =>
    obtain rfl := Option.some.inj h
    exact id
  | plain v =>
    obtain rfl := Option.some.inj h
    exact ht
  | closeList | closeTable | comma | colon | fault f => cases h

end Reader

/-- **A text that is read as a table starts with a brace**, but for blanks. -/
theorem brace_of_read {s : String} {entries : Entries String Value}
    (h : read s = .ok (.table entries)) : ∃ gaps rest, s.toList = gaps ++ '\x7b' :: rest ∧
      ∀ g ∈ gaps, isGap g = true := by
  rw [read] at h
  split at h
  · cases h
  · rcases scan_front s.toList with hnone | ⟨gaps, c, rest, more, hs, hgaps, hscan⟩
    · rw [hnone] at h
      cases h
    · refine ⟨gaps, rest, ?_, hgaps⟩
      replace h := (ofTokens_eq_ok h).1
      rw [hscan, Reader.run] at h
      split at h
      · cases h
      · rename_i next _ hstep
        by_cases hc : c = '\x7b'
        · rw [hs, hc]
        · exact absurd (Reader.endsInTable_of_run h trivial)
            (Reader.not_endsInTable_of_tame (tame_scanToken hc rest) hstep)
      · cases h

end FileTags.Json
