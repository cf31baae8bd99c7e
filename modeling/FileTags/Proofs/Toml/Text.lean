import FileTags.Proofs.Text.Hex
import FileTags.Toml.Reader
import FileTags.Toml.Writer
/-! # Texts in a configuration

A text between quotes is read as it was written, whatever follows it but another quote
(`textChars?_write`): each character is read back from what it is escaped as
(`basicChars_writeChar`).  What is written has no carriage return, so joining line ends leaves it alone.
-/
namespace FileTags.Toml

variable {c : Char} {cs rest : List Char}

/-- What a text between quotes is read as if one character comes before what follows. -/
def withChar (c : Char) (found : Option (List Char × List Char)) : Option (List Char × List Char) :=
  found.map fun found => (c :: found.1, found.2)

theorem basicChars_letter {letter : Char} (hu : letter ≠ 'u') (hU : letter ≠ 'U')
    (h : escaped? letter = some c) (rest : List Char) :
    basicChars false .nothing ('\\' :: letter :: rest) =
      withChar c (basicChars false .nothing rest) := by
  rw [basicChars.eq_def]
  simp only [reduceCtorEq, decide_false, Bool.false_and, Bool.false_eq_true, if_false, if_true,
    Char.reduceEq]
  split
  · rename_i heq
    exact absurd (List.cons.inj heq).1 hu
  · rename_i heq
    exact absurd (List.cons.inj heq).1 hU
  · rename_i heq
    obtain ⟨rfl, rfl⟩ := List.cons.inj heq
    rw [h]
    rfl
  · rename_i heq
    cases heq

theorem basicChars_unit {n : Nat} (h : n < 0x80) (rest : List Char) :
    basicChars false .nothing ('\\' :: 'u' :: Text.hexLower 4 n ++ rest) =
      withChar (Char.ofNat n) (basicChars false .nothing rest) := by
  have hunit := Text.hexNumber?_hexLower (Nat.lt_trans h (by decide : 0x80 < 0x10000))
  obtain ⟨a, b, c, d, hdigits⟩ : ∃ a b c d, Text.hexLower 4 n = [a, b, c, d] :=
    ⟨_, _, _, _, rfl⟩
  rw [hdigits] at hunit ⊢
  have hscalar : scalar? [a, b, c, d] = some (Char.ofNat n) := by
    rw [scalar?, hunit]
    exact if_pos (.inl (Nat.lt_trans h (by decide)))
  show basicChars false .nothing ('\\' :: 'u' :: a :: b :: c :: d :: rest) = _
  rw [basicChars.eq_def]
  simp only [reduceCtorEq, decide_false, Bool.false_and, Bool.false_eq_true, if_false, if_true,
    Char.reduceEq, hscalar]
  rfl

theorem basicChars_plain (hquote : c ≠ '"') (hback : c ≠ '\\') (hlegal : isIllegal c = false)
    (rest : List Char) :
    basicChars false .nothing (c :: rest) = withChar c (basicChars false .nothing rest) := by
  have hin : isIllegalIn false c = false := by rw [isIllegalIn, hlegal, Bool.false_and]
  rw [basicChars.eq_def]
  simp only [reduceCtorEq, decide_false, Bool.false_and, Bool.false_eq_true, if_false, hquote,
    hback, hin]
  rfl

/-- However a character is escaped, it is read as itself. -/
theorem basicChars_writeChar (c : Char) (rest : List Char) :
    basicChars false .nothing (writeChar c ++ rest) =
      withChar c (basicChars false .nothing rest) := by
  rw [writeChar]
  split
  · rename_i h
    exact basicChars_letter (by decide) (by decide) (by rw [h]; rfl) rest
  split
  · rename_i h
    exact basicChars_letter (by decide) (by decide) (by rw [h]; rfl) rest
  split
  · rename_i h
    exact basicChars_letter (by decide) (by decide) (by rw [h]; rfl) rest
  split
  · rename_i h
    exact basicChars_letter (by decide) (by decide) (by rw [h]; rfl) rest
  split
  · rename_i h
    exact basicChars_letter (by decide) (by decide) (by rw [h]; rfl) rest
  split
  · rename_i h
    exact basicChars_letter (by decide) (by decide) (by rw [h]; rfl) rest
  rename_i hquote hback _ _ _ _
  split
  · -- A control is written by its number.
    rename_i hcontrol
    have hlow : c.toNat < 0x80 := by
      simp only [Bool.or_eq_true, Bool.and_eq_true, decide_eq_true_eq] at hcontrol
      omega
    have hchar := basicChars_unit hlow rest
    rwa [Char.ofNat_toNat] at hchar
  · rename_i hcontrol
    exact basicChars_plain hquote hback (Bool.eq_false_iff.2 hcontrol) rest

theorem basicChars_flatMap (cs rest : List Char) :
    basicChars false .nothing (cs.flatMap writeChar ++ '"' :: rest) = some (cs, rest) := by
  induction cs with
  | nil =>
    show basicChars false .nothing ('"' :: rest) = some ([], rest)
    rw [basicChars.eq_def]
    rfl
  | cons c cs ih =>
    rw [List.flatMap_cons, List.append_assoc, basicChars_writeChar, ih]
    rfl

/-- No character is written with a quote in front. -/
theorem head_writeChar (c : Char) : ∃ first more, writeChar c = first :: more ∧ first ≠ '"' := by
  rw [writeChar]
  split
  · exact ⟨_, _, rfl, by decide⟩
  split
  · exact ⟨_, _, rfl, by decide⟩
  split
  · exact ⟨_, _, rfl, by decide⟩
  split
  · exact ⟨_, _, rfl, by decide⟩
  split
  · exact ⟨_, _, rfl, by decide⟩
  split
  · exact ⟨_, _, rfl, by decide⟩
  rename_i hquote _ _ _ _ _
  split
  · exact ⟨_, _, rfl, by decide⟩
  · exact ⟨c, [], rfl, hquote⟩

theorem return_notMem_writeChar (c : Char) : '\r' ∉ writeChar c := by
  rw [writeChar]
  split
  · decide
  split
  · decide
  split
  · decide
  split
  · decide
  split
  · decide
  split
  · decide
  rename_i _ _ _ hreturn _ _
  split
  · rename_i hcontrol
    have hlow : c.toNat < 0x80 := by
      simp only [Bool.or_eq_true, Bool.and_eq_true, decide_eq_true_eq] at hcontrol
      omega
    have hdigits : ∀ n < 0x80, '\r' ∉ '\\' :: 'u' :: Text.hexLower 4 n := by decide
    exact hdigits _ hlow
  · exact fun hmem => hreturn (List.mem_singleton.1 hmem).symm

theorem return_notMem_writeText (s : String) : '\r' ∉ (writeText s).toList := by
  rw [writeText, String.toList_ofList, List.mem_append, List.mem_cons, List.mem_flatMap]
  rintro ((hquote | ⟨c, -, hc⟩) | hquote)
  · exact absurd hquote (by decide)
  · exact return_notMem_writeChar c hc
  · exact absurd hquote (by decide)

/-- **A text between quotes is read as it was written.** -/
theorem textChars?_write (cs : List Char) (h : rest.head? ≠ some '"') :
    textChars? ('"' :: cs.flatMap writeChar ++ '"' :: rest) = some (cs, rest) := by
  have hread := basicChars_flatMap cs rest
  -- Three quotes would start a text of several lines, but the second is not followed by a third.
  have hfew : ∀ more, cs.flatMap writeChar ++ '"' :: rest ≠ '"' :: '"' :: more := by
    intro more heq
    cases cs with
    | nil =>
      rw [List.flatMap_nil, List.nil_append] at heq
      rw [(List.cons.inj heq).2] at h
      exact h rfl
    | cons c cs =>
      obtain ⟨first, others, hc, hfirst⟩ := head_writeChar c
      rw [List.flatMap_cons, hc] at heq
      exact hfirst (List.cons.inj heq).1
  show textChars? ('"' :: (cs.flatMap writeChar ++ '"' :: rest)) = _
  rw [textChars?]
  · exact hread
  · exact fun more heq => hfew more heq

theorem joinLineEnds_of_notMem (h : '\r' ∉ cs) : joinLineEnds cs = cs := by
  induction cs with
  | nil => rfl
  | cons c cs ih =>
    rw [List.mem_cons, not_or] at h
    rw [joinLineEnds, ih h.2]
    exact fun rest heq _ => h.1 heq.symm

end FileTags.Toml
