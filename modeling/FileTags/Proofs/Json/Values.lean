import FileTags.Proofs.Json.Numbers
/-! # The values that are read

Every value that is read comes back when it is written (`read_write_of_read`).  For the reader makes
only values of a certain kind (`Given`): whole numbers without too many digits, numbers of 64 bits that
a decimal is rounded to, tables in which no key comes twice, and nothing nested more deeply than there
was room for.  Each token keeps to that (`sound_scan`), and so does what is still open
(`Reader.Sound`).
-/
namespace FileTags.Json

open Decimal Decimal.Binary64

/-! ## Kinds of values -/

/-- The values that a single token stands for, but for texts. -/
inductive Plain : Value → Prop where
  | null : Plain .null
  | bool (b : Bool) : Plain (.bool b)
  | int {n : Int} (h : n.natAbs < 10 ^ maxDigits) : Plain (.int n)
  | float (negative : Bool) {magnitude : Nat} (h : magnitude ≤ infinityBits) :
      Plain (.float (ofMagnitude negative magnitude))
  | nan : Plain (.float nan)

/-- **The values that are read** where so many lists and tables may stand inside one another. -/
inductive Given : Nat → Value → Prop where
  | plain {room : Nat} {v : Value} (h : Plain v) : Given room v
  | text (room : Nat) (s : String) : Given room (.text s)
  | list {room : Nat} {items : List Value} (h : ∀ v ∈ items, Given room v) :
      Given (room + 1) (.list items)
  | table {room : Nat} {entries : Entries String Value} (hkeys : (Entries.keys entries).Nodup)
      (h : ∀ e ∈ entries, Given room e.2) : Given (room + 1) (.table entries)

theorem Given.mono {room room' : Nat} {v : Value} (h : Given room v) (hle : room ≤ room') :
    Given room' v := by
  induction h generalizing room' with
  | plain h => exact .plain h
  | text _ s => exact .text room' s
  | list _ ih =>
    obtain ⟨k, rfl⟩ : ∃ k, room' = k + 1 := ⟨room' - 1, by omega⟩
    exact .list fun v hv => ih v hv (by omega)
  | table hkeys _ ih =>
    obtain ⟨k, rfl⟩ : ∃ k, room' = k + 1 := ⟨room' - 1, by omega⟩
    exact .table hkeys fun e he => ih e he (by omega)

theorem ComesBack.mono {style : Style} {height height' : Nat} {v : Value}
    (h : ComesBack style height v) (hle : height ≤ height') : ComesBack style height' v := by
  intro depth
  obtain ⟨tokens, hspells, htakes⟩ := h depth
  exact ⟨tokens, hspells, htakes.starts, htakes.whole, fun stack rest hroom => htakes.run stack rest (by omega)⟩

theorem Plain.comesBack {style : Style} {v : Value} (h : Plain v) : ComesBack style 0 v := by
  cases h with
  | null => exact comesBack_null
  | bool b => exact comesBack_bool b
  | int h => exact comesBack_int h
  | float negative h => exact comesBack_float negative h
  | nan => exact comesBack_nan

theorem Given.comesBack {style : Style} (hstyle : style.asciiOnly = false) {room : Nat} {v : Value}
    (h : Given room v) : ComesBack style room v := by
  induction h with
  | plain h => exact h.comesBack.mono (Nat.zero_le _)
  | text room s => exact (comesBack_text hstyle s).mono (Nat.zero_le _)
  | list _ ih => exact comesBack_list ih
  | table hkeys _ ih => exact comesBack_table hstyle hkeys ih

/-! ## Tokens -/

/-- A word or a number, or the fault in its place. -/
def Token.IsPlain : Token → Prop
  | .plain v => Plain v
  | .fault _ => True
  | _ => False

/-- The value that a token stands for, if it is no text, is a plain one. -/
def Token.Sound : Token → Prop
  | .plain v => Plain v
  | _ => True

theorem Token.IsPlain.sound {t : Token} (h : t.IsPlain) : t.Sound := by
  cases t with
  | plain v => exact h
  | _ => exact trivial

theorem plain_ofDecimal (negative : Bool) (digits : Nat) (exponent : Int) :
    Plain (.float (ofDecimal negative digits exponent)) := by
  obtain ⟨magnitude, hle, hall⟩ := exists_magnitude digits exponent
  rw [hall negative]
  exact .float negative hle

theorem plain_wholeNumber {negative : Bool} {digits : List Char} {n : Int}
    (hdigits : AllDigits digits) (h : wholeNumber negative digits = .ok n) : Plain (.int n) := by
  rw [wholeNumber] at h
  split at h
  · cases h
  · rename_i hlength
    have hlt : digitsValue digits < 10 ^ maxDigits :=
      (digitsValue_lt hdigits).trans_le (Nat.pow_le_pow_right (by decide) (Nat.not_lt.1 hlength))
    obtain rfl := Except.ok.inj h
    refine .int ?_
    cases negative with
    | true =>
      rw [if_pos rfl, Int.natAbs_neg]
      exact hlt
    | false => exact hlt

theorem isPlain_finishNumber {negative : Bool} {whole : List Char} (h : AllDigits whole)
    (cs : List Char) : (finishNumber negative whole cs).1.IsPlain := by
  rw [finishNumber]
  split
  · split
    · rename_i hvalue
      exact plain_wholeNumber h hvalue
    · exact trivial
  · exact plain_ofDecimal ..
  · exact plain_ofDecimal ..
  · exact plain_ofDecimal ..

theorem isPlain_scanNumber? {negative : Bool} {cs : List Char} {found : Token × List Char}
    (h : scanNumber? negative cs = some found) : found.1.IsPlain := by
  rw [scanNumber?.eq_def] at h
  split at h
  · rw [← Option.some.inj h]
    exact isPlain_finishNumber (allDigits_zeros 1) _
  · split at h
    · rw [← Option.some.inj h]
      exact isPlain_finishNumber (fun c hc => List.mem_takeWhile_imp hc) _
    · cases h
  · cases h

theorem isPlain_scanWord? {cs : List Char} {found : Token × List Char}
    (h : scanWord? cs = some found) : found.1.IsPlain := by
  obtain ⟨⟨word, v⟩, hmem, hword⟩ := List.exists_of_findSome?_eq_some h
  obtain ⟨rest, -, rfl⟩ := Option.map_eq_some_iff.1 hword
  simp only [words, List.mem_cons, List.not_mem_nil, or_false, Prod.mk.injEq] at hmem
  rcases hmem with ⟨-, rfl⟩ | ⟨-, rfl⟩ | ⟨-, rfl⟩ | ⟨-, rfl⟩ | ⟨-, rfl⟩ | ⟨-, rfl⟩
  · exact Plain.null
  · exact Plain.bool true
  · exact Plain.bool false
  · exact Plain.nan
  · exact Plain.float false (Nat.le_refl _)
  · exact Plain.float true (Nat.le_refl _)

theorem isPlain_scanToken {c : Char} (h : c ∉ marks) (cs : List Char) :
    (scanToken c cs).1.IsPlain := by
  rw [scanToken_other h]
  split
  · rename_i found hword
    exact isPlain_scanWord? hword
  · split
    · rename_i found hnumber
      split at hnumber
      · exact isPlain_scanNumber? hnumber
      · exact isPlain_scanNumber? hnumber
    · exact trivial

theorem textToken_cases (units : List Nat) :
    (∃ s, textToken units = .text s) ∨ textToken units = .halfPair := by
  rw [textToken]
  split
  · exact .inl ⟨_, rfl⟩
  · exact .inr rfl

/-- A text, or the fault in its place. -/
theorem scanToken_quote (cs : List Char) :
    (∃ s, (scanToken '"' cs).1 = .text s) ∨ (scanToken '"' cs).1 = .halfPair ∨
      (scanToken '"' cs).1 = .fault .malformed := by
  rw [scanToken]
  split
  · rename_i units rest _
    exact (textToken_cases units).imp_right .inl
  · exact .inr (.inr rfl)

theorem sound_scanToken (c : Char) (cs : List Char) : (scanToken c cs).1.Sound := by
  by_cases hc : c ∈ marks
  · simp only [marks, List.mem_cons, List.not_mem_nil, or_false] at hc
    rcases hc with rfl | rfl | rfl | rfl | rfl | rfl | rfl
    · exact trivial
    · exact trivial
    · exact trivial
    · exact trivial
    · exact trivial
    · exact trivial
    · rcases scanToken_quote cs with ⟨s, hs⟩ | hhalf | hfault
      · rw [hs]
        exact trivial
      · rw [hhalf]
        exact trivial
      · rw [hfault]
        exact trivial
  · exact (isPlain_scanToken hc cs).sound

/-- Every token is scanned at some place in the text. -/
theorem exists_of_mem_scan {cs : List Char} {t : Token} (h : t ∈ Token.scan cs) :
    ∃ c rest, c :: rest <:+ cs ∧ t = (scanToken c rest).1 := by
  fun_induction Token.scan cs with
  | case1 => cases h
  | case2 c rest _ ih =>
    obtain ⟨c', rest', hsuffix, ht⟩ := ih h
    exact ⟨c', rest', hsuffix.trans (List.suffix_cons _ _), ht⟩
  | case3 c rest _ found ih =>
    rcases List.mem_cons.1 h with rfl | hmem
    · exact ⟨c, rest, List.suffix_refl _, rfl⟩
    · obtain ⟨c', rest', hsuffix, ht⟩ := ih hmem
      have hrest := (scanToken_suffix c rest).trans (List.suffix_cons c rest)
      exact ⟨c', rest', hsuffix.trans hrest, ht⟩

/-- **Every token of a text stands for a plain value**, if for one at all. -/
theorem sound_scan (cs : List Char) : ∀ t ∈ Token.scan cs, t.Sound := by
  intro t ht
  obtain ⟨c, rest, -, rfl⟩ := exists_of_mem_scan ht
  exact sound_scanToken c rest

/-! ## The reader -/

namespace Reader

/-- The room for what stands inside the innermost of so many open lists and tables. -/
def room (stack : List Frame) : Nat := maxDepth - stack.length

theorem room_cons {frame : Frame} {stack : List Frame} (h : stack.length < maxDepth) :
    room (frame :: stack) + 1 ≤ room stack := by
  rw [room, room, List.length_cons]
  omega

/-- The members that a list or table has so far have their room. -/
def FrameGiven (room : Nat) : Frame → Prop
  | .list items => ∀ v ∈ items, Given room v
  | .table entries _ => ∀ e ∈ entries, Given room e.2

/-- Every list and table that is open has its room, and the members it has so far. -/
def StackGiven : List Frame → Prop
  | [] => True
  | frame :: stack =>
    stack.length < maxDepth ∧ FrameGiven (room (frame :: stack)) frame ∧ StackGiven stack

/-- What is read but not yet a member has its room. -/
def AwaitingGiven (stack : List Frame) : Awaiting → Prop
  | .value => True
  | .firstItem => stack.length < maxDepth
  | .firstKey entries | .key entries | .colon entries _ =>
    stack.length < maxDepth ∧ ∀ e ∈ entries, Given (room stack - 1) e.2
  | .after v => Given (room stack) v

/-- **All that a reader has read** has its room. -/
structure Sound (r : Reader) : Prop where
  stack : StackGiven r.stack
  awaiting : AwaitingGiven r.stack r.awaiting

theorem sound_start : start.Sound := ⟨trivial, trivial⟩

theorem given_tableOf {stack : List Frame} {entries : List (String × Value)}
    (hroom : stack.length < maxDepth) (h : ∀ e ∈ entries, Given (room stack - 1) e.2) :
    Given (room stack) (tableOf entries) := by
  have hentries : ∀ e ∈ Entries.ofPairs entries.reverse, Given (room stack - 1) e.2 :=
    Entries.forall_mem_ofPairs fun e he => h e (List.mem_reverse.1 he)
  refine (Given.table (Entries.nodup_keys_ofPairs _) hentries).mono ?_
  rw [room]
  omega

theorem sound_value? {stack : List Frame} {token : Token} {next : Reader} (hstack : StackGiven stack)
    (ht : token.Sound) (hroom : (opened? token).isSome → stack.length < maxDepth)
    (h : value? stack token = some next) : next.Sound := by
  cases token with
  | openList =>
    obtain rfl := Option.some.inj h
    exact ⟨hstack, hroom rfl⟩
  | openTable =>
    obtain rfl := Option.some.inj h
    exact ⟨hstack, hroom rfl, List.forall_mem_nil _⟩
  | text s =>
    obtain rfl := Option.some.inj h
    exact ⟨hstack, .text _ s⟩
  | halfPair =>
    obtain rfl := Option.some.inj h
    exact ⟨hstack, .text _ ""⟩
  | plain v =>
    obtain rfl := Option.some.inj h
    exact ⟨hstack, .plain ht⟩
  | closeList | closeTable | comma | colon | fault f => cases h

theorem sound_after? {v : Value} {stack : List Frame} {token : Token} {next : Reader}
    (hstack : StackGiven stack) (hv : Given (room stack) v) (h : after? v stack token = some next) :
    next.Sound := by
  rw [after?.eq_def] at h
  split at h
  · obtain rfl := Option.some.inj h
    obtain ⟨hroom, hframe, hbelow⟩ := hstack
    exact ⟨⟨hroom, List.forall_mem_cons.2 ⟨hv, hframe⟩, hbelow⟩, trivial⟩
  · rename_i items stack
    obtain rfl := Option.some.inj h
    obtain ⟨hroom, hframe, hbelow⟩ := hstack
    have hitems : ∀ w ∈ (v :: items).reverse, Given (room (.list items :: stack)) w := fun w hw =>
      List.forall_mem_cons.2 ⟨hv, hframe⟩ w (List.mem_reverse.1 hw)
    exact ⟨hbelow, (Given.list hitems).mono (room_cons hroom)⟩
  · rename_i entries key stack
    obtain rfl := Option.some.inj h
    obtain ⟨hroom, hframe, hbelow⟩ := hstack
    exact ⟨hbelow, hroom, List.forall_mem_cons.2 ⟨hv, hframe⟩⟩
  · rename_i entries key stack
    obtain rfl := Option.some.inj h
    obtain ⟨hroom, hframe, hbelow⟩ := hstack
    exact ⟨hbelow, given_tableOf hroom (List.forall_mem_cons.2 ⟨hv, hframe⟩)⟩
  · cases h

/-- What opens a list or a table without a fault has room for it. -/
theorem isFull_of_opened {r : Reader} {token : Token} (hawaits : r.awaitsValue = true)
    (h : (if r.awaitsValue then r.valueFault? token else none) = none)
    (hopen : (opened? token).isSome = true) : r.isFull = false := by
  rw [if_pos hawaits] at h
  cases token with
  | openList | openTable =>
    by_contra hfull
    simp [valueFault?, hfull, opened?] at h
  | closeList | closeTable | comma | colon | text s | halfPair | plain v | fault f => cases hopen

/-- **A token keeps what was read as it should be.** -/
theorem Sound.step {r next : Reader} {token : Token} (hr : r.Sound) (ht : token.Sound)
    (hfault : (if r.awaitsValue then r.valueFault? token else none) = none)
    (h : r.step? token = some next) : next.Sound := by
  obtain ⟨stack, awaiting⟩ := r
  obtain ⟨hstack, hawaiting⟩ := hr
  rw [step?.eq_def] at h
  dsimp only at h hstack hawaiting
  split at h
  · refine sound_value? hstack ht (fun hopen => ?_) h
    exact Nat.not_le.1 (of_decide_eq_false (isFull_of_opened rfl hfault hopen))
  · obtain rfl := Option.some.inj h
    have hempty : Given (room (.list [] :: stack) + 1) (.list []) := .list (List.forall_mem_nil _)
    exact ⟨hstack, hempty.mono (room_cons hawaiting)⟩
  · have hopened : StackGiven (.list [] :: stack) := ⟨hawaiting, List.forall_mem_nil _, hstack⟩
    refine sound_value? hopened ht (fun hopen => ?_) h
    exact Nat.not_le.1 (of_decide_eq_false (isFull_of_opened rfl hfault hopen))
  · obtain rfl := Option.some.inj h
    exact ⟨hstack, given_tableOf hawaiting.1 hawaiting.2⟩
  · obtain ⟨k, -, rfl⟩ := Option.map_eq_some_iff.1 h
    exact ⟨hstack, hawaiting⟩
  · obtain ⟨k, -, rfl⟩ := Option.map_eq_some_iff.1 h
    exact ⟨hstack, hawaiting⟩
  · obtain rfl := Option.some.inj h
    exact ⟨⟨hawaiting.1, hawaiting.2, hstack⟩, trivial⟩
  · exact sound_after? hstack hawaiting h
  · cases h

/-- **What is read has room for itself.** -/
theorem Sound.run {r : Reader} {tokens : List Token} {v : Value} (hr : r.Sound)
    (ht : ∀ t ∈ tokens, t.Sound) (h : r.run tokens = .ok v) : Given maxDepth v := by
  induction tokens generalizing r with
  | nil =>
    rw [Reader.run, finish] at h
    split at h
    · rename_i hstack hawaiting
      obtain rfl := Except.ok.inj h
      have hgiven := hr.awaiting
      rw [hstack, hawaiting] at hgiven
      exact hgiven
    · cases h
  | cons token tokens ih =>
    obtain ⟨htoken, htokens⟩ := List.forall_mem_cons.1 ht
    rw [Reader.run] at h
    split at h
    · cases h
    · rename_i next hfault hstep
      exact ih (hr.step htoken hfault hstep) htokens h
    · cases h

end Reader

/-- What tokens stand for was taken from them, and characters make all their texts. -/
theorem ofTokens_eq_ok {tokens : List Token} {v : Value} (h : ofTokens tokens = .ok v) :
    Reader.start.run tokens = .ok v ∧ tokens.any Token.isHalfPair = false := by
  rw [ofTokens] at h
  cases hrun : Reader.start.run tokens with
  | error fault =>
    rw [hrun] at h
    cases h
  | ok w =>
    rw [hrun] at h
    cases hhalf : tokens.any Token.isHalfPair with
    | true =>
      rw [hhalf] at h
      cases h
    | false =>
      rw [hhalf] at h
      exact ⟨congrArg Except.ok (Except.ok.inj h), rfl⟩

/-- **Whatever is read is of the kind that is given.** -/
theorem given_of_read {s : String} {v : Value} (h : read s = .ok v) : Given maxDepth v := by
  rw [read] at h
  split at h
  · cases h
  · exact Reader.sound_start.run (sound_scan _) (ofTokens_eq_ok h).1

/-- No whole number that is given has too many digits to be shown. -/
theorem Given.isShowable {room : Nat} {v : Value} (h : Given room v) : v.isShowable = true := by
  induction h with
  | plain h =>
    cases h with
    | int hn =>
      rw [Value.isShowable, decide_eq_true_eq]
      -- The power is not to be worked out.
      generalize maxDigits = k at hn ⊢
      exact hn
    | _ => rfl
  | text => rfl
  | list _ ih => exact Value.areShowable_iff.2 ih
  | table _ _ ih => exact Value.entriesAreShowable_iff.2 ih

/-- **Whatever was read comes back when it is written.** -/
theorem read_write_of_read {style : Style} (hstyle : style.asciiOnly = false) {s : String}
    {v : Value} (h : read s = .ok v) : read (write style v) = .ok v :=
  read_write ((given_of_read h).comesBack hstyle) (Nat.le_refl _)

end FileTags.Json
