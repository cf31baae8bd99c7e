/-! # Pieces of a text

A text is cut at every occurrence of a character; there is always one more piece than cuts, and
the pieces joined by the character are the text.
-/
namespace FileTags.Text

/-- The pieces between the occurrences of a character. -/
def pieces (separator : Char) : List Char → List (List Char)
  | [] => [[]]
  | c :: cs =>
    if c = separator then [] :: pieces separator cs
    else (c :: (pieces separator cs).headD []) :: (pieces separator cs).tail

@[simp] theorem pieces_nil (separator : Char) : pieces separator [] = [[]] := rfl

@[simp] theorem pieces_ne_nil (separator : Char) (cs : List Char) : pieces separator cs ≠ [] := by
  cases cs with
  | nil => simp
  | cons c cs => by_cases h : c = separator <;> simp [pieces, h]

/-- A cut more gives the pieces before it and the pieces after it. -/
theorem pieces_append (separator : Char) (cs ds : List Char) :
    pieces separator (cs ++ separator :: ds) = pieces separator cs ++ pieces separator ds := by
  induction cs with
  | nil => simp [pieces]
  | cons c cs ih =>
    by_cases h : c = separator
    · simp [pieces, h, ih]
    · obtain ⟨p, ps, hp⟩ := List.exists_cons_of_ne_nil (pieces_ne_nil separator cs)
      simp [pieces, h, ih, hp]

/-- A text without the character is its own only piece. -/
theorem pieces_of_notMem {separator : Char} {cs : List Char} (h : separator ∉ cs) :
    pieces separator cs = [cs] := by
  induction cs with
  | nil => rfl
  | cons c cs ih =>
    simp only [List.mem_cons, not_or] at h
    simp [pieces, Ne.symm h.1, ih h.2]

/-- No piece holds the character. -/
theorem notMem_of_mem_pieces {separator : Char} {cs piece : List Char}
    (h : piece ∈ pieces separator cs) : separator ∉ piece := by
  induction cs generalizing piece with
  | nil => simp_all
  | cons c cs ih =>
    obtain ⟨p, ps, hp⟩ := List.exists_cons_of_ne_nil (pieces_ne_nil separator cs)
    by_cases hc : c = separator
    · simp only [pieces, hc, if_true, List.mem_cons] at h
      rcases h with rfl | h
      · simp
      · exact ih h
    · simp only [pieces, hc, if_false, hp, List.headD_cons, List.tail_cons, List.mem_cons] at h
      rcases h with rfl | h
      · have := ih (show p ∈ Text.pieces separator cs by simp [hp])
        simp [Ne.symm hc, this]
      · exact ih (by simp [hp, h])

/-- Pieces with the character between them are cut into the same pieces. -/
theorem pieces_intercalate {separator : Char} {ps : List (List Char)} (hne : ps ≠ [])
    (h : ∀ p ∈ ps, separator ∉ p) : pieces separator ([separator].intercalate ps) = ps := by
  induction ps with
  | nil => exact absurd rfl hne
  | cons p ps ih =>
    obtain ⟨hp, hps⟩ := List.forall_mem_cons.1 h
    cases ps with
    | nil => rw [List.intercalate_singleton, pieces_of_notMem hp]
    | cons q qs =>
      rw [List.intercalate_cons_cons, List.append_assoc, List.singleton_append, pieces_append,
        pieces_of_notMem hp, ih (List.cons_ne_nil q qs) hps, List.singleton_append]

end FileTags.Text
