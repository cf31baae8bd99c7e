import FileTags.Proofs.Json.Values
/-! # Texts beyond the limits

A text that is not read is malformed, or it is beyond one of three limits, and then it shows: a number
with too many digits stands in it (`digits_of_read`), or more brackets and braces open in it than may
stand inside one another (`openings_of_read`), or a surrogate is escaped in it (`surrogate_of_read`).  The
first two are met by every whole number beyond the one (`read_digits`), and by whatever starts with
brackets beyond the other (`read_openings`).
-/
namespace FileTags.Json

open Decimal

variable {cs : List Char}

/-! ## Too many digits -/

/-- What is wrong at one place of a text: nothing starts there, or a number with too many digits. -/
def FaultAt (cs : List Char) (f : ReadFault) : Prop :=
  f = .malformed ∨ ∃ digits, digits <:+: cs ∧ AllDigits digits ∧ maxDigits < digits.length ∧
    f = .tooManyDigits digits.length

theorem FaultAt.mono {cs ds : List Char} {f : ReadFault} (h : FaultAt cs f) (hpart : cs <:+: ds) :
    FaultAt ds f := by
  rcases h with hmalformed | ⟨digits, hdigits, hall⟩
  · exact .inl hmalformed
  · exact .inr ⟨digits, hdigits.trans hpart, hall⟩

/-- A number is a fault only for its whole part. -/
theorem faultAt_finishNumber {negative : Bool} {whole rest : List Char} {f : ReadFault}
    (hpart : whole <:+: cs) (hdigits : AllDigits whole)
    (h : (finishNumber negative whole rest).1 = .fault f) : FaultAt cs f := by
  rw [finishNumber] at h
  split at h
  · rw [wholeNumber] at h
    split at h
    · rename_i hvalue
      cases h
    · rename_i hvalue
      obtain rfl := Token.fault.inj h
      split at hvalue
      · rename_i hlength
        exact .inr ⟨whole, hpart, hdigits, hlength, (Except.error.inj hvalue).symm⟩
      · cases hvalue
  · cases h
  · cases h
  · cases h

theorem faultAt_scanNumber? {negative : Bool} {found : Token × List Char} {f : ReadFault}
    (h : scanNumber? negative cs = some found) (hf : found.1 = .fault f) : FaultAt cs f := by
  rw [scanNumber?.eq_def] at h
  split at h
  · rename_i rest
    rw [← Option.some.inj h] at hf
    exact faultAt_finishNumber ⟨[], rest, rfl⟩ (allDigits_zeros 1) hf
  · rename_i c rest _
    split at h
    · rw [← Option.some.inj h] at hf
      exact faultAt_finishNumber (List.takeWhile_prefix _).isInfix
        (fun c hc => List.mem_takeWhile_imp hc) hf
    · cases h
  · cases h

theorem faultAt_scanToken {c : Char} {f : ReadFault} (h : (scanToken c cs).1 = .fault f) :
    FaultAt (c :: cs) f := by
  by_cases hmark : c ∈ marks
  · simp only [marks, List.mem_cons, List.not_mem_nil, or_false] at hmark
    rcases hmark with rfl | rfl | rfl | rfl | rfl | rfl | rfl
    · cases h
    · cases h
    · cases h
    · cases h
    · cases h
    · cases h
    · rcases scanToken_quote cs with ⟨s, hs⟩ | hhalf | hfault
      · rw [hs] at h
        cases h
      · rw [hhalf] at h
        cases h
      · rw [hfault] at h
        exact .inl (Token.fault.inj h).symm
  · rw [scanToken_other hmark] at h
    split at h
    · rename_i found hword
      obtain ⟨⟨word, v⟩, -, hfound⟩ := List.exists_of_findSome?_eq_some hword
      obtain ⟨rest, -, rfl⟩ := Option.map_eq_some_iff.1 hfound
      cases h
    · split at h
      · rename_i found hnumber
        split at hnumber
        · exact (faultAt_scanNumber? hnumber h).mono (List.suffix_cons c cs).isInfix
        · exact faultAt_scanNumber? hnumber h
      · exact .inl (Token.fault.inj h).symm

theorem faultAt_scan {f : ReadFault} (h : .fault f ∈ Token.scan cs) : FaultAt cs f := by
  obtain ⟨c, rest, hsuffix, hf⟩ := exists_of_mem_scan h
  exact (faultAt_scanToken hf.symm).mono hsuffix.isInfix

/-! ## Too many openings -/

/-- Whether a token opens a list or a table. -/
def Token.opens (t : Token) : Bool := (Reader.opened? t).isSome

/-- Whether a character opens a list or a table, unless it stands in a text. -/
def opensAny (c : Char) : Bool := c = '[' || c = '\x7b'

theorem opensAny_of_scanToken {c : Char} (h : (scanToken c cs).1.opens = true) :
    opensAny c = true := by
  by_cases hmark : c ∈ marks
  · simp only [marks, List.mem_cons, List.not_mem_nil, or_false] at hmark
    rcases hmark with rfl | rfl | rfl | rfl | rfl | rfl | rfl
    · rfl
    · cases h
    · rfl
    · cases h
    · cases h
    · cases h
    · rcases scanToken_quote cs with ⟨s, hs⟩ | hhalf | hfault
      · rw [hs] at h
        cases h
      · rw [hhalf] at h
        cases h
      · rw [hfault] at h
        cases h
  · have hplain := isPlain_scanToken hmark cs
    cases ht : (scanToken c cs).1 with
    | openList | openTable =>
      rw [ht] at hplain
      exact hplain.elim
    | _ =>
      rw [ht] at h
      cases h

/-- No more is opened by tokens than by characters. -/
theorem countP_opens_scan (cs : List Char) :
    (Token.scan cs).countP Token.opens ≤ cs.countP opensAny := by
  fun_induction Token.scan cs with
  | case1 => exact Nat.le_refl 0
  | case2 c rest _ ih => exact ih.trans (List.sublist_cons_self c rest).countP_le
  | case3 c rest _ found ih =>
    have hrest : found.2.countP opensAny ≤ rest.countP opensAny :=
      (scanToken_suffix c rest).sublist.countP_le
    rw [List.countP_cons, List.countP_cons]
    by_cases hopens : found.1.opens = true
    · rw [if_pos hopens, if_pos (opensAny_of_scanToken hopens)]
      omega
    · rw [if_neg hopens]
      omega

namespace Reader

/-- How many lists and tables are open, one that awaits its first member or a key included. -/
def depth (r : Reader) : Nat :=
  match r.awaiting with
  | .value | .after _ => r.stack.length
  | _ => r.stack.length + 1

theorem depth_value? {stack : List Frame} {token : Token} {next : Reader}
    (h : value? stack token = some next) :
    next.depth = stack.length + if token.opens then 1 else 0 := by
  cases token with
  | openList | openTable | text s | halfPair | plain v =>
    obtain rfl := Option.some.inj h
    rfl
  | closeList | closeTable | comma | colon | fault f => cases h

theorem depth_after? {v : Value} {stack : List Frame} {token : Token} {next : Reader}
    (h : after? v stack token = some next) : next.depth ≤ stack.length := by
  rw [after?.eq_def] at h
  split at h
  · obtain rfl := Option.some.inj h
    exact Nat.le_refl _
  · obtain rfl := Option.some.inj h
    exact Nat.le_succ _
  · obtain rfl := Option.some.inj h
    exact Nat.le_refl _
  · obtain rfl := Option.some.inj h
    exact Nat.le_succ _
  · cases h

/-- **A token opens one list or table at most.** -/
theorem depth_step? {r next : Reader} {token : Token} (h : r.step? token = some next) :
    next.depth ≤ r.depth + if token.opens then 1 else 0 := by
  obtain ⟨stack, awaiting⟩ := r
  rw [step?.eq_def] at h
  dsimp only at h
  split at h
  · exact (depth_value? h).le
  · obtain rfl := Option.some.inj h
    exact (Nat.le_succ _).trans (Nat.le_add_right _ _)
  · exact (depth_value? h).le
  · obtain rfl := Option.some.inj h
    exact (Nat.le_succ _).trans (Nat.le_add_right _ _)
  · obtain ⟨k, -, rfl⟩ := Option.map_eq_some_iff.1 h
    exact Nat.le_add_right _ _
  · obtain ⟨k, -, rfl⟩ := Option.map_eq_some_iff.1 h
    exact Nat.le_add_right _ _
  · obtain rfl := Option.some.inj h
    exact Nat.le_add_right _ _
  · exact (depth_after? h).trans (Nat.le_add_right _ _)
  · cases h

/-- A value is wrong as a token that is, or opens something where all is full. -/
theorem fault_of_valueFault? {r : Reader} {token : Token} {fault : ReadFault}
    (h : (if r.awaitsValue then r.valueFault? token else none) = some fault) :
    token = .fault fault ∨ (∃ c, fault = .tooDeep c) ∧ token.opens = true ∧ maxDepth ≤ r.depth := by
  obtain ⟨stack, awaiting⟩ := r
  split at h
  · rename_i hawaits
    have hdepth : Reader.isFull ⟨stack, awaiting⟩ = true → maxDepth ≤ depth ⟨stack, awaiting⟩ := by
      intro hfull
      cases awaiting with
      | value | firstItem => exact of_decide_eq_true hfull
      | firstKey | key | colon | after => cases hawaits
    cases token with
    | fault f => exact .inl (congrArg Token.fault (Option.some.inj h))
    | openList | openTable =>
      rw [valueFault?] at h
      · split at h
        · rename_i hfull
          exact .inr ⟨⟨_, (Option.some.inj h).symm⟩, rfl, hdepth hfull⟩
        · cases h
      · intro f hf
        cases hf
    | closeList | closeTable | comma | colon | text | halfPair | plain =>
      rw [valueFault?] at h
      · split at h <;> cases h
      · intro f hf
        cases hf
  · cases h

/-- **What can be wrong with a run**: its form, a token, or the depth of what it opens. -/
theorem fault_of_run {r : Reader} {tokens : List Token} {fault : ReadFault}
    (h : r.run tokens = .error fault) :
    fault = .malformed ∨ .fault fault ∈ tokens ∨
      (∃ c, fault = .tooDeep c) ∧ maxDepth < r.depth + tokens.countP Token.opens := by
  induction tokens generalizing r with
  | nil =>
    rw [Reader.run, finish] at h
    split at h
    · cases h
    · exact .inl (Except.error.inj h).symm
  | cons token tokens ih =>
    rw [Reader.run] at h
    rw [List.countP_cons]
    split at h
    · rename_i fault' hfault
      obtain rfl := Except.error.inj h
      rcases fault_of_valueFault? hfault with rfl | ⟨hdeep, hopens, hdepth⟩
      · exact .inr (.inl List.mem_cons_self)
      · refine .inr (.inr ⟨hdeep, ?_⟩)
        rw [if_pos hopens]
        omega
    · rename_i next _ hstep
      have hdepth := depth_step? hstep
      rcases ih h with hmalformed | hmem | ⟨hdeep, hlt⟩
      · exact .inl hmalformed
      · exact .inr (.inl (List.mem_cons_of_mem _ hmem))
      · exact .inr (.inr ⟨hdeep, by omega⟩)
    · exact .inl (Except.error.inj h).symm

end Reader

/-! ## Surrogates -/

/-- **A surrogate is escaped** somewhere in a text. -/
def EscapesSurrogate (cs : List Char) : Prop :=
  ∃ a b c d unit, ['\\', 'u', a, b, c, d] <:+: cs ∧ Text.hexNumber? [a, b, c, d] = some unit ∧
    0xD800 ≤ unit ∧ unit < 0xE000

theorem EscapesSurrogate.mono {cs ds : List Char} (h : EscapesSurrogate cs) (hpart : cs <:+: ds) :
    EscapesSurrogate ds := by
  obtain ⟨a, b, c, d, unit, hescape, hunit⟩ := h
  exact ⟨a, b, c, d, unit, hescape.trans hpart, hunit⟩

/-- Only a surrogate makes no character. -/
theorem exists_surrogate {units : List Nat} (h : joinUnits units = none) :
    ∃ unit ∈ units, 0xD800 ≤ unit ∧ unit < 0xE000 := by
  have hunit : ∀ unit, joinUnits.unitChar? unit = none → 0xD800 ≤ unit ∧ unit < 0xE000 := by
    intro unit hnone
    rw [joinUnits.unitChar?] at hnone
    split at hnone
    · assumption
    · cases hnone
  fun_induction joinUnits units with
  | case1 high low rest _ c ih =>
    obtain ⟨unit, hmem, hrange⟩ := ih (Option.map_eq_none_iff.1 h)
    exact ⟨unit, List.mem_cons_of_mem _ (List.mem_cons_of_mem _ hmem), hrange⟩
  | case2 high low rest _ ih =>
    cases hhigh : joinUnits.unitChar? high with
    | none => exact ⟨high, List.mem_cons_self, hunit high hhigh⟩
    | some c =>
      rw [hhigh] at h
      obtain ⟨unit, hmem, hrange⟩ := ih (Option.map_eq_none_iff.1 h)
      exact ⟨unit, List.mem_cons_of_mem _ hmem, hrange⟩
  | case3 unit => exact ⟨unit, List.mem_cons_self, hunit unit (Option.map_eq_none_iff.1 h)⟩
  | case4 => cases h

/-- A surrogate among the units of a text is escaped there, for no character is one. -/
theorem escapes_of_scanUnits {units : List Nat} {rest : List Char} {unit : Nat}
    (h : scanUnits cs = some (units, rest)) (hmem : unit ∈ units)
    (hrange : 0xD800 ≤ unit ∧ unit < 0xE000) : EscapesSurrogate cs := by
  have hvalid : ∀ c : Char, unit ≠ c.toNat := by
    rintro c rfl
    have hc : c.toNat < 0xD800 ∨ (0xDFFF < c.toNat ∧ c.toNat < 0x110000) := c.valid
    omega
  fun_induction scanUnits cs generalizing units with
  | case1 => cases h
  | case2 tail =>
    obtain ⟨rfl, -⟩ := Prod.mk.inj (Option.some.inj h)
    cases hmem
  | case3 a b c d tail ih =>
    obtain ⟨first, hfirst, ⟨us, r⟩, hrest, heq⟩ := by
      simpa only [Option.bind_eq_bind, Option.bind_eq_some_iff] using h
    obtain ⟨rfl, rfl⟩ := Prod.mk.inj (Option.some.inj heq)
    rcases List.mem_cons.1 hmem with rfl | hmem
    · exact ⟨a, b, c, d, _, ⟨[], tail, rfl⟩, hfirst, hrange⟩
    · exact (ih hrest hmem).mono ⟨['\\', 'u', a, b, c, d], [], List.append_nil _⟩
  | case4 c tail _ ih =>
    obtain ⟨meant, -, ⟨us, r⟩, hrest, heq⟩ := by
      simpa only [Option.bind_eq_bind, Option.bind_eq_some_iff] using h
    obtain ⟨rfl, rfl⟩ := Prod.mk.inj (Option.some.inj heq)
    rcases List.mem_cons.1 hmem with heq | hmem
    · exact absurd heq (hvalid meant)
    · exact (ih hrest hmem).mono ⟨['\\', c], [], List.append_nil _⟩
  | case5 => cases h
  | case6 c tail _ _ _ _ ih =>
    obtain ⟨⟨us, r⟩, hrest, heq⟩ := by
      simpa only [Option.bind_eq_bind, Option.bind_eq_some_iff] using h
    obtain ⟨rfl, rfl⟩ := Prod.mk.inj (Option.some.inj heq)
    rcases List.mem_cons.1 hmem with heq | hmem
    · exact absurd heq (hvalid c)
    · exact (ih hrest hmem).mono (List.suffix_cons c tail).isInfix

theorem escapes_of_scanToken {c : Char} (h : (scanToken c cs).1 = .halfPair) :
    EscapesSurrogate cs := by
  by_cases hquote : c = '"'
  · subst hquote
    rw [scanToken] at h
    split at h
    · rename_i units rest hunits
      rw [textToken] at h
      split at h
      · cases h
      · rename_i hnone
        obtain ⟨unit, hmem, hrange⟩ := exists_surrogate hnone
        exact escapes_of_scanUnits hunits hmem hrange
    · cases h
  · by_cases hmark : c ∈ marks
    · simp only [marks, List.mem_cons, List.not_mem_nil, or_false] at hmark
      rcases hmark with rfl | rfl | rfl | rfl | rfl | rfl | rfl
      · cases h
      · cases h
      · cases h
      · cases h
      · cases h
      · cases h
      · exact absurd rfl hquote
    · have hplain := isPlain_scanToken hmark cs
      rw [h] at hplain
      exact hplain.elim

theorem escapes_of_scan (h : .halfPair ∈ Token.scan cs) : EscapesSurrogate cs := by
  obtain ⟨c, rest, hsuffix, hhalf⟩ := exists_of_mem_scan h
  exact (escapes_of_scanToken hhalf.symm).mono ((List.suffix_cons c rest).trans hsuffix).isInfix

/-! ## Texts -/

variable {s : String}

/-- What can be wrong with tokens: how they run, or a text that no characters make. -/
theorem fault_of_ofTokens {tokens : List Token} {fault : ReadFault}
    (h : ofTokens tokens = .error fault) :
    Reader.start.run tokens = .error fault ∨ fault = .halfPair ∧ .halfPair ∈ tokens := by
  rw [ofTokens] at h
  cases hrun : Reader.start.run tokens with
  | error f =>
    rw [hrun] at h
    exact .inl (congrArg Except.error (Except.error.inj h))
  | ok v =>
    rw [hrun] at h
    cases hhalf : tokens.any Token.isHalfPair with
    | false =>
      rw [hhalf] at h
      cases h
    | true =>
      rw [hhalf] at h
      obtain ⟨t, ht, hbroken⟩ := List.any_eq_true.1 hhalf
      cases t with
      | halfPair => exact .inr ⟨(Except.error.inj h).symm, ht⟩
      | _ => cases hbroken

/-- What can be wrong with a text. -/
theorem fault_of_read {fault : ReadFault} (h : read s = .error fault) :
    FaultAt s.toList fault ∨ ((∃ c, fault = .tooDeep c) ∧ maxDepth < s.toList.countP opensAny) ∨
      fault = .halfPair ∧ EscapesSurrogate s.toList := by
  rw [read] at h
  split at h
  · exact .inl (.inl (Except.error.inj h).symm)
  · rcases fault_of_ofTokens h with hrun | ⟨hfault, hmem⟩
    · rcases Reader.fault_of_run hrun with hmalformed | hmem | ⟨hdeep, hlt⟩
      · exact .inl (.inl hmalformed)
      · exact .inl (faultAt_scan hmem)
      · have hdepth : Reader.start.depth = 0 := rfl
        have hle := countP_opens_scan s.toList
        exact .inr (.inl ⟨hdeep, by omega⟩)
    · exact .inr (.inr ⟨hfault, escapes_of_scan hmem⟩)

/-- **In a text with too large a number there are too many digits in a row.** -/
theorem digits_of_read {n : Nat} (h : read s = .error (.tooManyDigits n)) :
    ∃ digits, digits <:+: s.toList ∧ AllDigits digits ∧ maxDigits < digits.length := by
  rcases fault_of_read h with (hmalformed | ⟨digits, hpart, hdigits, hlength, -⟩) | ⟨⟨c, hc⟩, -⟩ |
    ⟨hhalf, -⟩
  · cases hmalformed
  · exact ⟨digits, hpart, hdigits, hlength⟩
  · cases hc
  · cases hhalf

/-- **In a text that is nested too deeply there are too many openings.** -/
theorem openings_of_read {c : Option Container} (h : read s = .error (.tooDeep c)) :
    maxDepth < s.toList.countP opensAny := by
  rcases fault_of_read h with (hmalformed | ⟨digits, -, -, -, hfault⟩) | ⟨-, hlt⟩ | ⟨hhalf, -⟩
  · cases hmalformed
  · cases hfault
  · exact hlt
  · cases hhalf

/-- **In a text that no characters make a surrogate is escaped.** -/
theorem surrogate_of_read (h : read s = .error .halfPair) : EscapesSurrogate s.toList := by
  rcases fault_of_read h with (hmalformed | ⟨digits, -, -, -, hfault⟩) | ⟨⟨c, hc⟩, -⟩ | ⟨-, hescapes⟩
  · cases hmalformed
  · cases hfault
  · cases hc
  · exact hescapes

/-- A whole number with too many digits is not read. -/
theorem read_digits (h : IsWhole s.toList) (hlength : maxDigits < s.toList.length) :
    read s = .error (.tooManyDigits s.toList.length) := by
  obtain ⟨c, rest, hcs, hc⟩ := h.startsWithDigit []
  rw [List.append_nil] at hcs
  have hnumber : scanNumber? false (s.toList ++ []) =
      some (.fault (.tooManyDigits s.toList.length), []) := by
    have hvalue : wholeNumber false s.toList = .error (.tooManyDigits s.toList.length) :=
      if_pos hlength
    have hfraction : scanFraction [] = none := rfl
    have hexponent : scanExponent [] = none := rfl
    rw [scanNumber?_whole h ended_nil.noDigit, finishNumber, hfraction, Option.elim_none, hexponent]
    simp only [hvalue]
  have hscan := scan_number ⟨c, rest, hcs, hc⟩ hnumber
  rw [List.append_nil] at hscan
  have htokens : Token.scan s.toList = [.fault (.tooManyDigits s.toList.length)] := by
    rw [show Token.scan s.toList = _ from hscan, Token.scan]
  rw [read]
  split
  · rename_i cs hmark
    rw [hcs] at hmark
    rw [(List.cons.inj hmark).1] at hc
    cases hc
  · rw [htokens]
    rfl

theorem scan_openings (n : Nat) (cs : List Char) :
    Token.scan (List.replicate n '[' ++ cs) = List.replicate n .openList ++ Token.scan cs := by
  induction n with
  | zero => rfl
  | succ n ih =>
    rw [List.replicate_succ, List.replicate_succ, List.cons_append, List.cons_append, ← ih]
    exact spells_openList _

/-- Lists are opened inside one another as long as there is room, whatever comes then. -/
theorem run_openings {m k : Nat} (hroom : k < maxDepth) (h : maxDepth ≤ k + m) (rest : List Token) :
    (⟨List.replicate k (.list []), .firstItem⟩ : Reader).run (List.replicate m .openList ++ rest) =
      .error (.tooDeep (some .list)) := by
  induction m generalizing k with
  | zero => omega
  | succ m ih =>
    rw [List.replicate_succ, List.cons_append]
    by_cases hfull : maxDepth ≤ k + 1
    · have hisFull : Reader.isFull ⟨List.replicate k (.list []), .firstItem⟩ = true := by
        simpa [Reader.isFull] using hfull
      simp [Reader.run, Reader.awaitsValue, Reader.valueFault?, hisFull, Reader.opened?]
    · have hisFull : Reader.isFull ⟨List.replicate k (.list []), .firstItem⟩ = false := by
        simpa [Reader.isFull] using hfull
      have hfault : (if Reader.awaitsValue ⟨List.replicate k (.list []), .firstItem⟩ then
          Reader.valueFault? ⟨List.replicate k (.list []), .firstItem⟩ .openList else none) = none := by
        simp [Reader.awaitsValue, Reader.valueFault?, hisFull]
      have hstep : Reader.step? ⟨List.replicate k (.list []), .firstItem⟩ .openList =
          some ⟨List.replicate (k + 1) (.list []), .firstItem⟩ := rfl
      rw [run_step hstep hfault]
      exact ih (by omega) (by omega)

/-- A text that starts with too many brackets is not read, whatever follows them. -/
theorem read_openings {n : Nat} (h : maxDepth < n) (cs : List Char) :
    read (String.ofList (List.replicate n '[' ++ cs)) = .error (.tooDeep (some .list)) := by
  obtain ⟨m, rfl⟩ : ∃ m, n = m + 1 := ⟨n - 1, by omega⟩
  have hmany : Reader.start.run (List.replicate (m + 1) .openList ++ Token.scan cs) =
      .error (.tooDeep (some .list)) := by
    have hopen : Reader.start.run (.openList :: (List.replicate m .openList ++ Token.scan cs)) =
        Reader.run ⟨[], .firstItem⟩ (List.replicate m .openList ++ Token.scan cs) :=
      run_opening rfl rfl (by decide) _
    exact hopen.trans (run_openings (k := 0) (by decide) (by omega) _)
  rw [read, String.toList_ofList]
  split
  · rename_i cs hmark
    exact absurd (List.cons.inj hmark).1 (by decide)
  · rw [scan_openings, ofTokens, hmany]
    rfl

end FileTags.Json
