import FileTags.Toml.Reader
import Mathlib.Data.List.Basic
/-! # What readers leave

Every reader of a part of a configuration gives back what follows in the text, which is an end of what it
was given (`Leaves`): so what is counted in a text is not counted twice by the readers of its parts.
There is a lemma for each way of putting readers together, and one for each reader of a plain value, of
a key and of what stands between values.
-/
namespace FileTags.Toml

variable {α β γ : Type} {cs ds rest : List Char}

/-- **A reader leaves an end of what it was given**, if it finds anything. -/
def Leaves (cs : List Char) (found : Option (α × List Char)) : Prop := ∀ f ∈ found, f.2 <:+ cs

theorem leaves_none : Leaves cs (none : Option (α × List Char)) := nofun

theorem leaves_some {a : α} (h : rest <:+ cs) : Leaves cs (some (a, rest)) := by
  rintro f hf
  rw [← Option.some.inj hf]
  exact h

section Leaves
variable {found : Option (α × List Char)}

theorem Leaves.mono (h : Leaves cs found) (hs : cs <:+ ds) : Leaves ds found :=
  fun f hf => (h f hf).trans hs

theorem Leaves.cons (h : Leaves cs found) (c : Char) : Leaves (c :: cs) found :=
  h.mono (List.suffix_cons c cs)

/-- What is made of the finding does not matter. -/
theorem Leaves.map (h : Leaves cs found) (g : α → β) :
    Leaves cs (found.map fun f => (g f.1, f.2)) := by
  intro f hf
  obtain ⟨f', hf', rfl⟩ := Option.map_eq_some_iff.1 hf
  exact h f' hf'

/-- A reader may go on from what another left. -/
theorem Leaves.bind (h : Leaves cs found) {g : α × List Char → Option (β × List Char)}
    (hg : ∀ f, Leaves f.2 (g f)) : Leaves cs (found.bind g) := by
  intro f hf
  obtain ⟨f', hf', hfound⟩ := Option.bind_eq_some_iff.1 hf
  exact (hg f' f hfound).trans (h f' hf')

theorem leaves_bind {o : Option γ} {g : γ → Option (α × List Char)} (hg : ∀ x ∈ o, Leaves cs (g x)) :
    Leaves cs (o.bind g) := by
  intro f hf
  obtain ⟨x, hx, hfound⟩ := Option.bind_eq_some_iff.1 hf
  exact hg x hx f hfound

end Leaves

/-! ## Texts -/

theorem leaves_basicChars (multiline : Bool) (skipping : Skipping) (cs : List Char) :
    Leaves cs (basicChars multiline skipping cs) := by
  fun_induction basicChars multiline skipping cs with
  | case1 | case4 | case14 | case15 => exact leaves_none
  | case2 | case3 | case5 =>
    rename_i ih
    exact ih.cons _
  | case6 => exact leaves_some ⟨[_, _, _], rfl⟩
  | case8 => exact leaves_some (List.suffix_cons _ _)
  | case7 | case16 =>
    rename_i ih
    exact (ih.map (_ :: ·)).cons _
  | case9 =>
    rename_i ih
    exact leaves_bind fun _ _ => (ih.map (_ :: ·)).mono ⟨[_, _, _, _, _, _], rfl⟩
  | case10 =>
    rename_i ih
    exact leaves_bind fun _ _ => (ih.map (_ :: ·)).mono ⟨[_, _, _, _, _, _, _, _, _, _], rfl⟩
  | case13 =>
    rename_i ih
    exact leaves_bind fun _ _ => ((ih.map (_ :: ·)).cons _).cons _
  | case11 | case12 =>
    rename_i ih
    exact (ih.cons _).cons _

theorem leaves_literalChars (multiline : Bool) (cs : List Char) :
    Leaves cs (literalChars multiline cs) := by
  fun_induction literalChars multiline cs with
  | case1 | case5 => exact leaves_none
  | case2 => exact leaves_some ⟨[_, _, _], rfl⟩
  | case4 => exact leaves_some (List.suffix_cons _ _)
  | case3 | case6 =>
    rename_i ih
    exact (ih.map (_ :: ·)).cons _

theorem takeExtraQuotes_suffix (mark : Char) (found : List Char × List Char) :
    (takeExtraQuotes mark found).2 <:+ found.2 := List.drop_suffix _ _

theorem dropFirstLineEnd_suffix (cs : List Char) : dropFirstLineEnd cs <:+ cs := by
  rw [dropFirstLineEnd.eq_def]
  split
  · exact List.suffix_cons _ _
  · exact List.suffix_refl _

theorem Leaves.takeExtraQuotes {found : Option (List Char × List Char)} (h : Leaves cs found)
    (mark : Char) : Leaves cs (found.map (takeExtraQuotes mark)) := by
  intro f hf
  obtain ⟨f', hf', rfl⟩ := Option.map_eq_some_iff.1 hf
  exact (takeExtraQuotes_suffix mark f').trans (h f' hf')

theorem leaves_textChars? (cs : List Char) : Leaves cs (textChars? cs) := by
  rw [textChars?.eq_def]
  split
  · have hchars := leaves_basicChars true .nothing
    exact (((hchars _).mono (dropFirstLineEnd_suffix _)).takeExtraQuotes '"').mono ⟨[_, _, _], rfl⟩
  · exact (leaves_basicChars _ _ _).cons _
  · have hchars := leaves_literalChars true
    exact (((hchars _).mono (dropFirstLineEnd_suffix _)).takeExtraQuotes '\'').mono ⟨[_, _, _], rfl⟩
  · exact (leaves_literalChars _ _).cons _
  · exact leaves_none

theorem leaves_text? (cs : List Char) : Leaves cs (text? cs) := (leaves_textChars? cs).map String.ofList

/-! ## Numbers -/

theorem moreDigits_suffix (isDigit : Char → Bool) (cs : List Char) :
    (moreDigits isDigit cs).2 <:+ cs := by
  fun_induction moreDigits isDigit cs with
  | case1 | case3 | case5 => exact List.suffix_refl _
  | case2 =>
    rename_i ih
    exact (ih.trans (List.suffix_cons _ _)).trans (List.suffix_cons _ _)
  | case4 =>
    rename_i ih
    exact ih.trans (List.suffix_cons _ _)

theorem leaves_digits? (isDigit : Char → Bool) (cs : List Char) : Leaves cs (digits? isDigit cs) := by
  cases cs with
  | nil => exact leaves_none
  | cons c rest =>
    rw [digits?]
    split
    · exact leaves_some ((moreDigits_suffix isDigit rest).trans (List.suffix_cons _ _))
    · exact leaves_none

theorem leaves_based? (cs : List Char) : Leaves cs (based? cs) := by
  rw [based?.eq_def]
  split
  · exact (((leaves_digits? _ _).map fun digits => Value.int (inBase _ digits)).cons _).cons _
  · exact leaves_none

theorem sign_suffix (cs : List Char) : (sign cs).2 <:+ cs := by
  rw [sign.eq_def]
  split
  · exact List.suffix_cons _ _
  · exact List.suffix_cons _ _
  · exact List.suffix_refl _

theorem leaves_wholePart? (cs : List Char) : Leaves cs (wholePart? cs) := by
  rw [wholePart?.eq_def]
  split
  · exact leaves_some (List.suffix_cons _ _)
  · exact leaves_digits? _ _

theorem leaves_fraction? (cs : List Char) : Leaves cs (fraction? cs) := by
  rw [fraction?.eq_def]
  split
  · exact (leaves_digits? _ _).cons _
  · exact leaves_none

theorem leaves_exponent? (cs : List Char) : Leaves cs (exponent? cs) := by
  cases cs with
  | nil => exact leaves_none
  | cons c rest =>
    rw [exponent?]
    split
    · have hsign := sign_suffix rest
      generalize sign rest = signed at hsign
      obtain ⟨negative, unsigned⟩ := signed
      let exponent (digits : List Char) : Int :=
        if negative then -(Decimal.digitsValue digits : Int) else Decimal.digitsValue digits
      exact (((leaves_digits? Char.isDigit unsigned).map exponent).mono hsign).cons c
    · exact leaves_none

/-- What follows a part that may be missing. -/
theorem getD_snd_suffix {found : Option (α × List Char)} (h : Leaves cs found) :
    (found.map Prod.snd).getD cs <:+ cs := by
  cases found with
  | none => exact List.suffix_refl _
  | some f => exact h f rfl

/-- **What reading a decimal number comes to.** -/
inductive DecimalRead (cs : List Char) : Except ReadFault (Option (Value × List Char)) → Prop where
  | none : DecimalRead cs (.ok none)
  | fault {negative : Bool} {digits : List Char} {fault : ReadFault}
      (number : Decimal.wholeNumber negative digits = .error fault) : DecimalRead cs (.error fault)
  | int {rest : List Char} (n : Int) (left : rest <:+ cs) : DecimalRead cs (.ok (some (.int n, rest)))
  | float {rest : List Char} (x : Decimal.Binary64) (left : rest <:+ cs) :
      DecimalRead cs (.ok (some (.float x, rest)))

theorem decimalRead (cs : List Char) : DecimalRead cs (decimal? cs) := by
  rw [decimal?]
  have hsign := sign_suffix cs
  generalize sign cs = signed at hsign
  obtain ⟨negative, unsigned⟩ := signed
  dsimp only at hsign ⊢
  have hwhole := leaves_wholePart? unsigned
  split
  · exact .none
  · rename_i whole rest hparts
    have hrest : rest <:+ cs := (hwhole _ hparts).trans hsign
    have hfraction := getD_snd_suffix (leaves_fraction? rest)
    have hexponent := getD_snd_suffix (leaves_exponent? ((fraction? rest).map Prod.snd |>.getD rest))
    split
    · cases hnumber : Decimal.wholeNumber negative whole with
      | error fault => exact .fault hnumber
      | ok n => exact .int n hrest
    · exact .float _ ((hexponent.trans hfraction).trans hrest)

/-! ## Words -/

theorem afterWord?_suffix {word : List Char} (h : afterWord? word cs = some rest) : rest <:+ cs := by
  fun_induction afterWord? word cs with
  | case1 => exact Option.some.inj h ▸ List.suffix_refl _
  | case2 =>
    rename_i ih
    exact (ih h).trans (List.suffix_cons _ _)
  | case3 | case4 => cases h

theorem leaves_word? (cs : List Char) : Leaves cs (word? cs) := by
  intro f hf
  obtain ⟨⟨word, v⟩, -, hfound⟩ := List.exists_of_findSome?_eq_some hf
  obtain ⟨rest, hrest, rfl⟩ := Option.map_eq_some_iff.1 hfound
  exact afterWord?_suffix hrest

/-! ## Dates and times -/

theorem leaves_fixed? (width : Nat) (cs : List Char) : Leaves cs (fixed? width cs) := by
  rw [fixed?]
  split
  · exact leaves_some (List.drop_suffix _ _)
  · exact leaves_none

theorem expect?_suffix {c : Char} (h : expect? c cs = some rest) : rest <:+ cs := by
  cases cs with
  | nil => cases h
  | cons d ds =>
    rw [expect?] at h
    split at h
    · exact Option.some.inj h ▸ List.suffix_cons _ _
    · cases h

/-- A number after a character. -/
theorem leaves_expect?_bind {c : Char} {g : List Char → Option (α × List Char)}
    (hg : ∀ rest, Leaves rest (g rest)) : Leaves cs ((expect? c cs).bind g) :=
  leaves_bind fun rest hrest => (hg rest).mono (expect?_suffix hrest)

theorem leaves_micro? (cs : List Char) : Leaves cs (micro? cs) := by
  rw [micro?.eq_def]
  split
  · dsimp only
    split
    · exact leaves_none
    · exact leaves_some ((List.dropWhile_suffix _).trans (List.suffix_cons _ _))
  · exact leaves_none

theorem leaves_clock? (cs : List Char) : Leaves cs (clock? cs) := by
  refine (leaves_fixed? 2 cs).bind fun hour => ?_
  refine leaves_expect?_bind fun rest => (leaves_fixed? 2 rest).bind fun minute => ?_
  refine leaves_expect?_bind fun rest => (leaves_fixed? 2 rest).bind fun second => ?_
  dsimp only
  split
  · exact leaves_some (getD_snd_suffix (leaves_micro? _))
  · exact leaves_none

theorem leaves_offset? (cs : List Char) : Leaves cs (offset? cs) := by
  rw [offset?.eq_def]
  split
  · exact leaves_some (List.suffix_cons _ _)
  · exact leaves_some (List.suffix_cons _ _)
  · split
    · refine Leaves.cons ((leaves_fixed? 2 _).bind fun hour => ?_) _
      refine leaves_expect?_bind fun rest => (leaves_fixed? 2 rest).bind fun minute => ?_
      dsimp only
      split
      · exact leaves_some (List.suffix_refl _)
      · exact leaves_none
    · exact leaves_none
  · exact leaves_none

theorem leaves_day? (cs : List Char) : Leaves cs (day? cs) := by
  refine (leaves_fixed? 4 cs).bind fun year => ?_
  refine leaves_expect?_bind fun rest => (leaves_fixed? 2 rest).bind fun month => ?_
  refine leaves_expect?_bind fun rest => (leaves_fixed? 2 rest).bind fun day => ?_
  dsimp only
  split
  · exact leaves_some (List.suffix_refl _)
  · exact leaves_none

theorem leaves_clockAfterDay? (cs : List Char) : Leaves cs (clockAfterDay? cs) := by
  cases cs with
  | nil => exact leaves_none
  | cons c rest =>
    rw [clockAfterDay?]
    split
    · exact (leaves_clock? rest).cons c
    · exact leaves_none

theorem leaves_moment? (cs : List Char) : Leaves cs (moment? cs) := by
  rw [moment?]
  split
  · rename_i hday
    have hrest := leaves_day? cs _ hday
    split
    · rename_i hclock
      have hafter := leaves_clockAfterDay? _ _ hclock
      split
      · rename_i hoffset
        exact leaves_some ((leaves_offset? _ _ hoffset).trans (hafter.trans hrest))
      · exact leaves_some (hafter.trans hrest)
    · exact leaves_some hrest
  · exact (leaves_clock? cs).map Moment.clock

/-- **What reading a plain value comes to.** -/
inductive PlainRead (cs : List Char) : Except ReadFault (Value × List Char) → Prop where
  | malformed : PlainRead cs (.error .malformed)
  | text {s : String} {rest : List Char} (found : text? cs = some (s, rest)) :
      PlainRead cs (.ok (.text s, rest))
  | moment {m : Moment} {rest : List Char} (found : moment? cs = some (m, rest)) :
      PlainRead cs (.ok (.moment m, rest))
  | based {v : Value} {rest : List Char} (found : based? cs = some (v, rest)) : PlainRead cs (.ok (v, rest))
  | decimal {v : Value} {rest : List Char} (found : decimal? cs = .ok (some (v, rest))) :
      PlainRead cs (.ok (v, rest))
  | fault {fault : ReadFault} (found : decimal? cs = .error fault) : PlainRead cs (.error fault)
  | word {v : Value} {rest : List Char} (found : word? cs = some (v, rest)) : PlainRead cs (.ok (v, rest))

theorem plainRead (cs : List Char) : PlainRead cs (plain cs) := by
  rw [plain]
  split
  · exact .text ‹_›
  · split
    · exact .moment ‹_›
    · split
      · exact .based ‹_›
      · cases hdecimal : decimal? cs with
        | error fault => exact .fault hdecimal
        | ok found =>
          dsimp only [bind, Except.bind]
          split
          · exact .decimal hdecimal
          · split
            · exact .word ‹_›
            · exact .malformed

/-- **A plain value leaves what follows it.** -/
theorem plain_suffix {v : Value} (h : plain cs = .ok (v, rest)) : rest <:+ cs := by
  have hread := plainRead cs
  rw [h] at hread
  cases hread with
  | text found => exact leaves_text? cs _ found
  | moment found => exact leaves_moment? cs _ found
  | based found => exact leaves_based? cs _ found
  | decimal found =>
    have hdecimal := decimalRead cs
    rw [found] at hdecimal
    cases hdecimal with
    | int n left | float x left => exact left
  | word found => exact leaves_word? cs _ found

/-! ## Keys, and what stands between values -/

theorem skipComment_suffix (h : skipComment cs = some rest) : rest <:+ cs := by
  rw [skipComment.eq_def] at h
  split at h
  · split at h
    · cases h
    · rw [← Option.some.inj h]
      exact (List.dropWhile_suffix _).trans (List.suffix_cons _ _)
  · exact Option.some.inj h ▸ List.suffix_refl _

theorem skipGaps_suffix {fuel : Nat} (h : skipGaps fuel cs = some rest) : rest <:+ cs := by
  induction fuel generalizing cs with
  | zero => exact Option.some.inj h ▸ List.suffix_refl _
  | succ fuel ih =>
    rw [skipGaps] at h
    have hgaps := List.dropWhile_suffix isGap (l := cs)
    split at h
    · rename_i comment hcomment
      rw [hcomment] at hgaps
      obtain ⟨after, hafter, hrest⟩ := Option.bind_eq_some_iff.1 h
      exact ((ih hrest).trans (skipComment_suffix hafter)).trans hgaps
    · exact Option.some.inj h ▸ hgaps

theorem leaves_keyPart? (cs : List Char) : Leaves cs (keyPart? cs) := by
  rw [keyPart?.eq_def]
  split
  · exact ((leaves_basicChars _ _ _).map String.ofList).cons _
  · exact ((leaves_literalChars _ _).map String.ofList).cons _
  · dsimp only
    split
    · exact leaves_none
    · exact leaves_some (List.dropWhile_suffix _)

theorem leaves_key? (fuel : Nat) (cs : List Char) : Leaves cs (key? fuel cs) := by
  induction fuel generalizing cs with
  | zero => exact leaves_none
  | succ fuel ih =>
    refine (leaves_keyPart? cs).bind fun part => ?_
    have hspace := List.dropWhile_suffix isSpace (l := part.2)
    dsimp only
    split
    · rename_i more hdot
      rw [hdot] at hspace
      have hmore := ((List.dropWhile_suffix isSpace (l := more)).trans (List.suffix_cons '.' more)).trans hspace
      exact ((ih (more.dropWhile isSpace)).mono hmore).bind fun parts => leaves_some (List.suffix_refl _)
    · exact leaves_some hspace

end FileTags.Toml
