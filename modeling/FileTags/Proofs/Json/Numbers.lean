import FileTags.Proofs.Decimal.ReadBack
import FileTags.Proofs.Json.RoundTrip
/-! # Numbers and words

A number comes back from its text.  A whole number is written by its digits (`comesBack_int`), any other
by a decimal that is rounded to it (`comesBack_float`), and the values that have no digits by words
(`spells_word`).  A number is scanned as far as its digits go, so all this holds before an end.
-/
namespace FileTags.Json

open Decimal Decimal.Binary64

variable {negative : Bool} {whole fraction size rest : List Char}

/-! ## Parts of a number -/

/-- No digit follows. -/
def NoDigit (cs : List Char) : Prop := ∀ c ∈ cs.head?, c.isDigit = false

theorem Ended.noDigit {cs : List Char} (h : Ended cs) : NoDigit cs := by
  intro c hc
  have hend := h c hc
  simp only [endsNumber, Bool.and_eq_true, Bool.not_eq_true'] at hend
  exact hend.1.1.1

theorem takeWhile_digits (h : AllDigits whole) (hrest : NoDigit rest) :
    (whole ++ rest).takeWhile Char.isDigit = whole ∧
      (whole ++ rest).dropWhile Char.isDigit = rest := by
  have hstop : rest.takeWhile Char.isDigit = [] ∧ rest.dropWhile Char.isDigit = rest := by
    cases rest with
    | nil => exact ⟨rfl, rfl⟩
    | cons c cs =>
      have hc : ¬ c.isDigit = true := by simp [hrest c rfl]
      exact ⟨List.takeWhile_cons_of_neg hc, List.dropWhile_cons_of_neg hc⟩
  rw [List.takeWhile_append_of_pos h, List.dropWhile_append_of_pos h, hstop.1, hstop.2]
  exact ⟨List.append_nil _, rfl⟩

theorem scanFraction_pointed (h : AllDigits fraction) (hne : fraction ≠ []) (hrest : NoDigit rest) :
    scanFraction (pointed fraction ++ rest) = some (fraction, rest) := by
  obtain ⟨htake, hdrop⟩ := takeWhile_digits h hrest
  rw [pointed_of_ne hne]
  simp only [List.cons_append, scanFraction, htake, hdrop]
  exact if_neg (by simpa using hne)

theorem scanFraction_none (h : ∀ c ∈ rest.head?, c ≠ '.') : scanFraction rest = none := by
  rw [scanFraction.eq_def]
  split
  · exact absurd rfl (h _ rfl)
  · rfl

theorem scanExponent_none (h : ∀ c ∈ rest.head?, c ≠ 'e' ∧ c ≠ 'E') : scanExponent rest = none := by
  cases rest with
  | nil => rfl
  | cons c cs =>
    obtain ⟨hlower, hupper⟩ := h c rfl
    simp [scanExponent, hlower, hupper]

/-- An exponent with its sign is scanned as its value. -/
theorem scanExponent_signed (negative : Bool) (h : AllDigits size) (hne : size ≠ []) (hrest : NoDigit rest) :
    scanExponent ('e' :: (if negative then '-' else '+') :: size ++ rest) =
      some (if negative then -(digitsValue size : Int) else digitsValue size, rest) := by
  obtain ⟨htake, hdrop⟩ := takeWhile_digits h hrest
  have hsign : scanSign ((if negative then '-' else '+') :: (size ++ rest)) =
      (negative, size ++ rest) := by
    cases negative <;> rfl
  simp [scanExponent, hsign, htake, hdrop, hne]

theorem Ended.ne {cs : List Char} (h : Ended cs) :
    ∀ c ∈ cs.head?, c ≠ '.' ∧ c ≠ 'e' ∧ c ≠ 'E' := by
  intro c hc
  have hend := h c hc
  simp only [endsNumber, Bool.and_eq_true, bne_iff_ne] at hend
  exact ⟨hend.1.1.2, hend.1.2, hend.2⟩

/-! ## Whole parts -/

/-- A whole part is scanned up to what is no digit. -/
theorem scanNumber?_whole (h : IsWhole whole) (hrest : NoDigit rest) :
    scanNumber? negative (whole ++ rest) = some (finishNumber negative whole rest) := by
  obtain ⟨htake, hdrop⟩ := takeWhile_digits h.digits hrest
  obtain ⟨c, cs, rfl, hc⟩ := h.front
  rw [List.cons_append] at htake hdrop ⊢
  by_cases hzero : c = '0'
  · obtain rfl := hc hzero
    rw [hzero]
    rfl
  · rw [scanNumber?, if_pos (h.digits c List.mem_cons_self), htake, hdrop]
    exact fun heq => hzero heq

theorem scanNumber?_int (h : IsWhole whole) (hlength : whole.length ≤ maxDigits)
    (hrest : Ended rest) : scanNumber? negative (whole ++ rest) =
      some (.plain (.int (if negative then -(digitsValue whole : Int) else digitsValue whole)),
        rest) := by
  have hvalue : wholeNumber negative whole =
      .ok (if negative then -(digitsValue whole : Int) else digitsValue whole) :=
    if_neg (Nat.not_lt.2 hlength)
  have hfraction : scanFraction rest = none := scanFraction_none fun c hc => (hrest.ne c hc).1
  have hexponent : scanExponent rest = none := scanExponent_none fun c hc => (hrest.ne c hc).2
  rw [scanNumber?_whole h hrest.noDigit, finishNumber, hfraction, Option.elim_none, hexponent]
  simp only [hvalue]

/-- **A spelled decimal is scanned as the number nearest to it.** -/
theorem scanNumber?_spelled {cs : List Char} {n : Nat} {e : Int} (h : Spelled cs n e)
    (hrest : Ended rest) : scanNumber? negative (cs ++ rest) =
      some (.plain (.float (ofDecimal negative n e)), rest) := by
  cases h with
  | @positional whole fraction hwhole hdigits hne =>
    have hexponent : scanExponent rest = none := scanExponent_none fun c hc => (hrest.ne c hc).2
    have hpoint : NoDigit (pointed fraction ++ rest) := by
      rw [pointed_of_ne hne]
      rintro _ ⟨⟩
      rfl
    rw [List.append_assoc, scanNumber?_whole hwhole hpoint, finishNumber,
      scanFraction_pointed hdigits hne hrest.noDigit, Option.elim_some, hexponent]
    simp [finishNumber.decimal]
  | @scientific whole fraction size negative' hwhole hdigits hsize hne =>
    set tail := 'e' :: (if negative' then '-' else '+') :: size ++ rest with htail
    have hexponent := scanExponent_signed negative' hsize hne hrest.noDigit
    have hsplit : whole ++ (pointed fraction ++ 'e' :: (if negative' then '-' else '+') :: size) ++
        rest = whole ++ (pointed fraction ++ tail) := by
      simp [htail]
    have hletter : NoDigit tail := by
      rintro _ ⟨⟩
      rfl
    rw [hsplit]
    by_cases hnone : fraction = []
    · have hfraction : scanFraction tail = none := by
        refine scanFraction_none ?_
        rintro _ ⟨⟩
        decide
      subst hnone
      rw [show pointed [] = [] from rfl, List.nil_append, scanNumber?_whole hwhole hletter,
        finishNumber, hfraction, Option.elim_none, hexponent]
      rfl
    · have hpoint : NoDigit (pointed fraction ++ tail) := by
        rw [pointed_of_ne hnone]
        rintro _ ⟨⟩
        rfl
      rw [scanNumber?_whole hwhole hpoint, finishNumber, scanFraction_pointed hdigits hnone hletter,
        Option.elim_some, hexponent]
      rfl

/-! ## Words -/

theorem append_of_afterWord? {word cs rest : List Char} (h : afterWord? word cs = some rest) :
    cs = word ++ rest := by
  fun_induction afterWord? word cs with
  | case1 cs => exact Option.some.inj h
  | case2 ws c cs ih => rw [ih h, List.cons_append]
  | case3 => cases h
  | case4 => cases h

/-- The brackets and separators, and the quote that starts a text. -/
def marks : List Char := ['[', ']', '\x7b', '\x7d', ',', ':', '"']

/-- A token that starts with none of them is a word or a number. -/
theorem scanToken_other {c : Char} (h : c ∉ marks) (cs : List Char) :
    scanToken c cs =
      match scanWord? (c :: cs) with
      | some found => found
      | none =>
        match (if c = '-' then scanNumber? true cs else scanNumber? false (c :: cs)) with
        | some found => found
        | none => (.fault .malformed, []) := by
  rw [scanToken.eq_def]
  split
  · exact absurd (by decide) h
  · exact absurd (by decide) h
  · exact absurd (by decide) h
  · exact absurd (by decide) h
  · exact absurd (by decide) h
  · exact absurd (by decide) h
  · exact absurd (by decide) h
  · rfl

/-- A character that starts a word or a number starts no blank, and nothing else. -/
def startsPlain (c : Char) : Bool :=
  !isGap c && !marks.contains c

theorem startsPlain_of_isDigit {c : Char} (h : c.isDigit = true) : startsPlain c = true := by
  simp only [startsPlain, isGap, marks, List.contains_cons, Bool.and_eq_true, Bool.not_eq_true',
    Bool.or_eq_false_iff, decide_eq_false_iff_not, beq_eq_false_iff_ne]
  refine ⟨⟨⟨⟨?_, ?_⟩, ?_⟩, ?_⟩, ?_, ?_, ?_, ?_, ?_, ?_, ?_, rfl⟩ <;> (rintro rfl; cases h)

/-- A word or a number is scanned as the token that it makes. -/
theorem scan_plain {c : Char} {cs : List Char} {t : Token} (hc : startsPlain c = true)
    (h : scanWord? (c :: cs) = some (t, rest) ∨ scanWord? (c :: cs) = none ∧
      (if c = '-' then scanNumber? true cs else scanNumber? false (c :: cs)) = some (t, rest)) :
    Token.scan (c :: cs) = t :: Token.scan rest := by
  simp only [startsPlain, Bool.and_eq_true, Bool.not_eq_true', List.contains_eq_mem,
    decide_eq_false_iff_not] at hc
  have htoken : scanToken c cs = (t, rest) := by
    rw [scanToken_other hc.2]
    rcases h with hword | ⟨hword, hnumber⟩
    · rw [hword]
    · simp only [hword, hnumber]
  rw [Token.scan, hc.1, if_neg Bool.false_ne_true, htoken]

/-- **A word is scanned as the value that it stands for.** -/
theorem spells_word {word : String} {v : Value} (h : (word, v) ∈ words) :
    Spells word.toList [.plain v] := by
  have hfirst : ∀ entry ∈ words, ∃ c cs, entry.1.toList = c :: cs ∧ startsPlain c = true ∧
      ∀ rest, scanWord? (c :: cs ++ rest) = some (.plain entry.2, rest) := by
    intro entry hentry
    simp only [words, List.mem_cons, List.not_mem_nil, or_false] at hentry
    rcases hentry with rfl | rfl | rfl | rfl | rfl | rfl
    · exact ⟨_, _, rfl, rfl, fun _ => rfl⟩
    · exact ⟨_, _, rfl, rfl, fun _ => rfl⟩
    · exact ⟨_, _, rfl, rfl, fun _ => rfl⟩
    · exact ⟨_, _, rfl, rfl, fun _ => rfl⟩
    · exact ⟨_, _, rfl, rfl, fun _ => rfl⟩
    · exact ⟨_, _, rfl, rfl, fun _ => rfl⟩
  obtain ⟨c, cs, hcs, hc, hscan⟩ := hfirst _ h
  intro rest
  rw [hcs]
  exact scan_plain hc (.inl (hscan rest))

/-! ## Numbers -/

/-- Words start with a letter, or with a minus sign before one. -/
theorem words_front : ∀ entry ∈ words, ∃ c cs, c.isDigit = false ∧
    (entry.1.toList = '-' :: c :: cs ∨ c ≠ '-' ∧ entry.1.toList = c :: cs) := by
  intro entry hentry
  simp only [words, List.mem_cons, List.not_mem_nil, or_false] at hentry
  rcases hentry with rfl | rfl | rfl | rfl | rfl | rfl
  · exact ⟨'n', _, rfl, .inr ⟨by decide, rfl⟩⟩
  · exact ⟨'t', _, rfl, .inr ⟨by decide, rfl⟩⟩
  · exact ⟨'f', _, rfl, .inr ⟨by decide, rfl⟩⟩
  · exact ⟨'N', _, rfl, .inr ⟨by decide, rfl⟩⟩
  · exact ⟨'I', _, rfl, .inr ⟨by decide, rfl⟩⟩
  · exact ⟨'I', _, rfl, .inl rfl⟩

/-- So none starts with a digit, or with a minus sign before one. -/
theorem scanWord?_digits (negative : Bool) {c : Char} (hc : c.isDigit = true) (cs : List Char) :
    scanWord? (signed negative (c :: cs)) = none := by
  refine List.findSome?_eq_none_iff.2 fun entry hentry => Option.map_eq_none_iff.2 ?_
  refine Option.eq_none_iff_forall_ne_some.2 fun rest hword => ?_
  have hsplit := append_of_afterWord? hword
  obtain ⟨w, ws, hw, hminus | ⟨hne, hletter⟩⟩ := words_front entry hentry
  · rw [hminus] at hsplit
    cases negative with
    | true =>
      obtain rfl : c = w := (List.cons.inj (List.cons.inj hsplit).2).1
      exact Bool.false_ne_true (hw.symm.trans hc)
    | false =>
      obtain rfl : c = '-' := (List.cons.inj hsplit).1
      cases hc
  · rw [hletter] at hsplit
    cases negative with
    | true => exact hne (List.cons.inj hsplit).1.symm
    | false =>
      obtain rfl : c = w := (List.cons.inj hsplit).1
      exact Bool.false_ne_true (hw.symm.trans hc)

/-- What is scanned as a number is scanned as a token, with its sign. -/
theorem scan_number {cs : List Char} {t : Token} (hfront : ∃ c tail, cs = c :: tail ∧ c.isDigit = true)
    (h : scanNumber? negative (cs ++ rest) = some (t, rest)) :
    Token.scan (signed negative cs ++ rest) = t :: Token.scan rest := by
  obtain ⟨c, tail, rfl, hc⟩ := hfront
  have hword := scanWord?_digits negative hc (tail ++ rest)
  cases negative with
  | true => exact scan_plain rfl (.inr ⟨hword, (if_pos rfl).trans h⟩)
  | false =>
    have hsign : c ≠ '-' := by
      rintro rfl
      cases hc
    exact scan_plain (startsPlain_of_isDigit hc) (.inr ⟨hword, (if_neg hsign).trans h⟩)

theorem spelled_front {cs : List Char} {n : Nat} {e : Int} (h : Spelled cs n e) :
    ∃ c tail, cs = c :: tail ∧ c.isDigit = true := by
  cases h with
  | positional hwhole => exact hwhole.startsWithDigit _
  | scientific _ hwhole => exact hwhole.startsWithDigit _

/-! ## Coming back -/

section ComesBack
variable {style : Style}

theorem comesBack_word (word : String) {v : Value} (h : (word, v) ∈ words)
    (hwrite : ∀ depth, writeValue style depth v = word.toList) : ComesBack style 0 v := by
  intro depth
  rw [hwrite depth]
  exact ⟨_, (spells_word h).ended, takes_plain v⟩

theorem comesBack_null : ComesBack style 0 .null :=
  comesBack_word "null" (by simp [words]) fun _ => by rw [writeValue]

theorem comesBack_bool (b : Bool) : ComesBack style 0 (.bool b) := by
  cases b with
  | true => exact comesBack_word "true" (by simp [words]) fun _ => by rw [writeValue]; rfl
  | false => exact comesBack_word "false" (by simp [words]) fun _ => by rw [writeValue]; rfl

theorem toList_toString_int (n : Int) :
    (toString n).toList = signed (decide (n < 0)) (toString n.natAbs).toList := by
  cases n with
  | ofNat m => rfl
  | negSucc m =>
    have hnegative : decide (Int.negSucc m < 0) = true := decide_eq_true (Int.negSucc_lt_zero m)
    have htext : toString (Int.negSucc m) = "-" ++ toString (m + 1) := rfl
    rw [hnegative, htext, String.toList_append]
    rfl

/-- **A whole number comes back** if it has no more digits than are read. -/
theorem comesBack_int {n : Int} (h : n.natAbs < 10 ^ maxDigits) : ComesBack style 0 (.int n) := by
  intro depth
  have hwhole := isWhole_toString n.natAbs
  have hlength : (toString n.natAbs).toList.length ≤ maxDigits := length_toString_le (by decide) h
  have hvalue : (if decide (n < 0) = true then -(digitsValue (toString n.natAbs).toList : Int)
      else digitsValue (toString n.natAbs).toList) = n := by
    rw [digitsValue_toString]
    by_cases hnegative : n < 0
    · rw [if_pos (decide_eq_true hnegative)]
      omega
    · rw [if_neg (by simpa using hnegative)]
      omega
  have hfront := hwhole.startsWithDigit []
  rw [List.append_nil] at hfront
  rw [writeValue, toList_toString_int]
  refine ⟨[.plain (.int n)], fun rest hrest => scan_number hfront ?_, takes_plain (.int n)⟩
  rw [scanNumber?_int hwhole hlength hrest, hvalue]

/-- **Any other number comes back**, however it is laid out. -/
theorem comesBack_float (negative : Bool) {magnitude : Nat} (h : magnitude ≤ infinityBits) :
    ComesBack style 0 (.float (ofMagnitude negative magnitude)) := by
  rcases Nat.lt_or_eq_of_le h with hlt | rfl
  · intro depth
    obtain ⟨cs, n, e, hrender, hspelled, hread⟩ := exists_render "Infinity" "NaN" negative hlt
    rw [writeValue, hrender, String.toList_ofList, ← hread]
    exact ⟨[.plain _], fun rest hrest => scan_number (spelled_front hspelled)
      (scanNumber?_spelled hspelled hrest), takes_plain _⟩
  · cases negative with
    | true =>
      refine comesBack_word "-Infinity" (by simp [words, infinity]) fun _ => ?_
      rw [writeValue]
      exact congrArg String.toList (render_infinity "Infinity" "NaN" true)
    | false =>
      refine comesBack_word "Infinity" (by simp [words, infinity]) fun _ => ?_
      rw [writeValue]
      exact congrArg String.toList (render_infinity "Infinity" "NaN" false)

theorem comesBack_nan : ComesBack style 0 (.float nan) := by
  have hview : nan.view = .notANumber := by decide
  refine comesBack_word "NaN" (by simp [words]) fun _ => ?_
  rw [writeValue, render, hview]

end ComesBack

end FileTags.Json
