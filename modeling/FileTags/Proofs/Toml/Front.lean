import FileTags.Toml.Reader
import Mathlib.Data.List.Basic
/-! # How configurations start

The first character that is no blank starts a statement, and none starts with a brace: what starts so
is no configuration (`not_read_of_brace`).  A configuration of at most a byte says nothing
(`read_of_size_le`).
-/
namespace FileTags.Toml

variable {d d' : Document} {c : Char} {cs rest : List Char}

/-- A character that is neither a bracket nor a number sign, and starts no key. -/
structure StartsNothing (c : Char) : Prop where
  bracket : c ≠ '['
  comment : c ≠ '#'
  quote : c ≠ '"'
  tick : c ≠ '\''
  key : isKeyChar c = false

theorem statement_of_startsNothing (h : StartsNothing c) (d : Document) (cs : List Char) :
    statement d (c :: cs) = .error .malformed := by
  have hpart : keyPart? (c :: cs) = none := by
    have htake : (c :: cs).takeWhile isKeyChar = [] :=
      List.takeWhile_cons_of_neg (by rw [h.key]; exact Bool.false_ne_true)
    rw [keyPart?, htake]
    · rfl
    · exact fun _ heq => h.quote (List.cons.inj heq).1
    · exact fun _ heq => h.tick (List.cons.inj heq).1
  have hkey : key? (c :: cs).length (c :: cs) = none := by
    rw [List.length_cons, key?, hpart]
    rfl
  rw [statement, hkey]
  · exact fun _ heq => h.bracket (List.cons.inj heq).1
  · exact fun _ heq => h.bracket (List.cons.inj heq).1
  · exact fun _ heq => h.comment (List.cons.inj heq).1

/-! ## Braces -/

/-- A blank or a line end of a data text. -/
def IsGapOfData (c : Char) : Prop := c = ' ' ∨ c = '\t' ∨ c = '\n' ∨ c = '\r'

/-- Joining line ends leaves blanks and line ends in front. -/
theorem joinLineEnds_of_gaps (rest : List Char) : ∀ gaps : List Char, (∀ g ∈ gaps, IsGapOfData g) →
    ∃ gaps', joinLineEnds (gaps ++ '\x7b' :: rest) = gaps' ++ '\x7b' :: joinLineEnds rest ∧
      ∀ g ∈ gaps', IsGapOfData g
  | [], _ => ⟨[], rfl, nofun⟩
  | [g], h => by
    refine ⟨[g], ?_, h⟩
    show joinLineEnds (g :: '\x7b' :: rest) = g :: '\x7b' :: joinLineEnds rest
    rw [joinLineEnds]
    · rfl
    · exact fun _ _ heq => absurd (List.cons.inj heq).1 (by decide)
  | g :: g' :: gaps, h => by
    obtain ⟨hg, hrest⟩ := List.forall_mem_cons.1 h
    obtain ⟨hg', hmore⟩ := List.forall_mem_cons.1 hrest
    by_cases hpair : g = '\r' ∧ g' = '\n'
    · obtain ⟨gaps', heq, hgaps'⟩ := joinLineEnds_of_gaps rest gaps hmore
      refine ⟨'\n' :: gaps', ?_, List.forall_mem_cons.2 ⟨.inr (.inr (.inl rfl)), hgaps'⟩⟩
      rw [hpair.1, hpair.2]
      show '\n' :: joinLineEnds (gaps ++ '\x7b' :: rest) = _
      rw [heq, List.cons_append]
    · obtain ⟨gaps', heq, hgaps'⟩ := joinLineEnds_of_gaps rest (g' :: gaps) hrest
      refine ⟨g :: gaps', ?_, List.forall_mem_cons.2 ⟨hg, hgaps'⟩⟩
      show joinLineEnds (g :: g' :: (gaps ++ '\x7b' :: rest)) = _
      rw [joinLineEnds]
      · exact congrArg (g :: ·) heq
      · exact fun _ hr heq => hpair ⟨hr, (List.cons.inj heq).1⟩

theorem dropWhile_of_brace (gaps : List Char) :
    (gaps ++ '\x7b' :: rest).dropWhile isSpace = gaps.dropWhile isSpace ++ '\x7b' :: rest := by
  rw [List.dropWhile_append]
  split
  · rename_i hempty
    rw [List.isEmpty_iff.1 hempty]
    rfl
  · rfl

/-- However many lines are read, a brace is none. -/
theorem statements_of_brace {fuel : Nat} {gaps : List Char} (h : ∀ g ∈ gaps, IsGapOfData g)
    (hfuel : gaps.length < fuel) (d : Document) :
    statements fuel d (gaps ++ '\x7b' :: rest) = .error .malformed := by
  induction fuel generalizing gaps with
  | zero => exact absurd hfuel (Nat.not_lt_zero _)
  | succ fuel ih =>
    rw [statements, dropWhile_of_brace]
    cases hdrop : gaps.dropWhile isSpace with
    | nil =>
      have hbrace : statement d ('\x7b' :: rest) = .error .malformed :=
        statement_of_startsNothing ⟨by decide, by decide, by decide, by decide, by decide⟩ d rest
      show statement d ('\x7b' :: rest) >>= _ = _
      rw [hbrace]
      rfl
    | cons g gaps' =>
      have hsuffix : g :: gaps' <:+ gaps := hdrop ▸ List.dropWhile_suffix _
      have hnot : isSpace g = false := by
        have hhead := List.head_dropWhile_not isSpace (l := gaps)
          (by rw [hdrop]; exact List.cons_ne_nil _ _)
        simpa [hdrop] using hhead
      rcases h g (hsuffix.subset List.mem_cons_self) with rfl | rfl | rfl | rfl
      · exact absurd hnot (by decide)
      · exact absurd hnot (by decide)
      · -- The next line starts with blanks, or with the brace.
        have hlength := hsuffix.length_le
        rw [List.length_cons] at hlength
        exact ih (fun g' hg' => h g' (hsuffix.subset (List.mem_cons_of_mem _ hg'))) (by omega)
      · have hreturn : statement d ('\r' :: (gaps' ++ '\x7b' :: rest)) = .error .malformed :=
          statement_of_startsNothing ⟨by decide, by decide, by decide, by decide, by decide⟩ d _
        show statement d ('\r' :: (gaps' ++ '\x7b' :: rest)) >>= _ = _
        rw [hreturn]
        rfl

/-- **What starts with a brace is no configuration.** -/
theorem not_read_of_brace {s : String} {gaps : List Char} (hs : s.toList = gaps ++ '\x7b' :: rest)
    (h : ∀ g ∈ gaps, IsGapOfData g) (root : Fields) : read s ≠ .ok root := by
  obtain ⟨gaps', heq, hgaps'⟩ := joinLineEnds_of_gaps rest gaps h
  have hfuel : gaps'.length < (gaps' ++ '\x7b' :: joinLineEnds rest).length + 1 := by
    rw [List.length_append]
    omega
  rw [read, hs, heq, statements_of_brace hgaps' hfuel]
  exact nofun

/-! ## A single byte -/

theorem length_le_utf8ByteSize (cs : List Char) : cs.length ≤ (String.ofList cs).utf8ByteSize := by
  induction cs with
  | nil => exact Nat.zero_le _
  | cons c cs ih =>
    rw [String.ofList_cons, String.utf8ByteSize_append, String.utf8ByteSize_singleton,
      List.length_cons]
    have hpos := Char.utf8Size_pos c
    omega

/-- After a key of one character there is nothing. -/
theorem key?_singleton {key : Key} (h : key? 1 [c] = some (key, rest)) : rest = [] := by
  rw [key?] at h
  obtain ⟨⟨part, more⟩, hpart, h⟩ := Option.bind_eq_some_iff.1 h
  have hmore : more = [] := by
    rw [keyPart?.eq_def] at hpart
    split at hpart
    · rename_i heq
      obtain rfl := (List.cons.inj heq).2
      cases hpart
    · rename_i heq
      obtain rfl := (List.cons.inj heq).2
      cases hpart
    · dsimp only at hpart
      split at hpart
      · cases hpart
      · rename_i hname
        obtain rfl : [c].dropWhile isKeyChar = more := congrArg Prod.snd (Option.some.inj hpart)
        have hkey : isKeyChar c = true := by
          by_contra hnot
          rw [List.takeWhile_cons_of_neg hnot] at hname
          exact hname rfl
        exact List.dropWhile_cons_of_pos hkey
  rw [hmore] at h
  exact (congrArg Prod.snd (Option.some.inj h)).symm

/-- One character alone starts a comment, or is no statement. -/
theorem statement_singleton (h : statement d [c] = .ok (d', rest)) :
    c = '#' ∧ d' = d ∧ rest = ['#'] := by
  rw [statement.eq_def] at h
  split at h
  · rename_i heq
    cases (List.cons.inj heq).2
  · rename_i heq
    obtain rfl := (List.cons.inj heq).2
    cases h
  · rename_i heq
    obtain rfl := (List.cons.inj heq).1
    obtain ⟨rfl, rfl⟩ := Prod.mk.inj (Except.ok.inj h)
    exact ⟨rfl, rfl, rfl⟩
  · split at h
    · rename_i hkey
      cases key?_singleton hkey
    · cases h

theorem statements_singleton (h : statements 2 d [c] = .ok d') : d' = d := by
  rw [statements] at h
  split at h
  · exact (Except.ok.inj h).symm
  · rename_i rest heq
    have hrest : rest = [] := by
      have hlength := (List.dropWhile_suffix isSpace (l := [c])).length_le
      rw [heq, List.length_cons, List.length_cons] at hlength
      exact List.eq_nil_of_length_eq_zero (Nat.le_zero.1 (Nat.le_of_succ_le_succ hlength))
    rw [hrest] at h
    exact (Except.ok.inj h).symm
  · rename_i hnil _
    have hdrop : [c].dropWhile isSpace = [c] := by
      cases hc : isSpace c with
      | true => exact absurd (List.dropWhile_cons_of_pos hc) hnil
      | false => exact List.dropWhile_cons_of_neg (by rw [hc]; exact Bool.false_ne_true)
    rw [hdrop] at h
    cases hstatement : statement d [c] with
    | error fault =>
      rw [hstatement] at h
      cases h
    | ok found =>
      obtain ⟨d₁, rest⟩ := found
      obtain ⟨rfl, rfl, rfl⟩ := statement_singleton hstatement
      rw [hstatement] at h
      exact (Except.ok.inj h).symm

/-- **A configuration of at most a byte says nothing.** -/
theorem read_of_size_le {s : String} {root : Fields} (hsize : s.utf8ByteSize ≤ 1)
    (h : read s = .ok root) : root = [] := by
  have hlength : s.toList.length ≤ 1 := by
    have hle := length_le_utf8ByteSize s.toList
    rw [String.ofList_toList] at hle
    exact Nat.le_trans hle hsize
  rw [read] at h
  match hs : s.toList with
  | [] =>
    rw [hs] at h
    exact (Except.ok.inj h).symm
  | [c] =>
    have hjoin : joinLineEnds [c] = [c] := by
      rw [joinLineEnds]
      · rfl
      · exact fun _ _ heq => nomatch heq
    rw [hs, hjoin] at h
    cases hlines : statements 2 .empty [c] with
    | error fault =>
      rw [List.length_singleton, hlines] at h
      cases h
    | ok d =>
      rw [List.length_singleton, hlines, statements_singleton hlines] at h
      exact (Except.ok.inj h).symm
  | _ :: _ :: _ =>
    rw [hs, List.length_cons, List.length_cons] at hlength
    omega

end FileTags.Toml
