import FileTags.Decimal.Numeral
import FileTags.Text.Hex
import FileTags.Text.Utf8
import FileTags.Value
/-! # Tokens of a data text

A data text is a run of brackets, separators, texts and plain values (numbers, truth values and
nothing), with blanks between them.  `Token.scan` reads them one after the other; the run ends early
with a fault where no token starts.  Besides the plain numbers it takes the three words for the
values that are no finite number.
-/
namespace FileTags.Json

open Decimal (Binary64 digitsValue)

/-- A part of a data text. -/
inductive Token where
  | openList
  | closeList
  | openTable
  | closeTable
  | comma
  | colon
  | text (s : String)
  /-- A text that no characters make: half of a pair of surrogates stands alone in it. -/
  | halfPair
  /-- A value without parts that is no text. -/
  | plain (v : Value)
  | fault (f : ReadFault)
  deriving Repr

/-- The characters of code units, of which two surrogates in order make one character; a surrogate
alone makes none. -/
def joinUnits : List Nat → Option (List Char)
  | high :: low :: rest =>
    if 0xD800 ≤ high ∧ high < 0xDC00 ∧ 0xDC00 ≤ low ∧ low < 0xE000 then
      let c := Char.ofNat (0x10000 + (high - 0xD800) * 0x400 + (low - 0xDC00))
      (joinUnits rest).map (c :: ·)
    else (unitChar? high).bind fun c => (joinUnits (low :: rest)).map (c :: ·)
  | [unit] => (unitChar? unit).map ([·])
  | [] => some []
where
  unitChar? (unit : Nat) : Option Char :=
    if 0xD800 ≤ unit ∧ unit < 0xE000 then none else some (Char.ofNat unit)

/-- The token of a text in quotes. -/
def textToken (units : List Nat) : Token :=
  match joinUnits units with
  | some cs => .text (String.ofList cs)
  | none => .halfPair

/-- The character that a letter after a backslash stands for. -/
def escaped? : Char → Option Char
  | '"' => some '"'
  | '\\' => some '\\'
  | '/' => some '/'
  | 'b' => some '\x08'
  | 'f' => some '\x0c'
  | 'n' => some '\n'
  | 'r' => some '\r'
  | 't' => some '\t'
  | _ => none

/-- Reads the units of a text up to its closing quote, and what follows that. -/
def scanUnits : List Char → Option (List Nat × List Char)
  | [] => none
  | '"' :: rest => some ([], rest)
  | '\\' :: 'u' :: a :: b :: c :: d :: rest => do
    let unit ← Text.hexNumber? [a, b, c, d]
    let (units, rest) ← scanUnits rest
    some (unit :: units, rest)
  | '\\' :: c :: rest => do
    let meant ← escaped? c
    let (units, rest) ← scanUnits rest
    some (meant.toNat :: units, rest)
  | c :: rest =>
    if c.toNat < 0x20 || c == '\\' then none
    else do
      let (units, rest) ← scanUnits rest
      some (c.toNat :: units, rest)

theorem suffix_of_scanUnits {cs : List Char} {units : List Nat} {rest : List Char}
    (h : scanUnits cs = some (units, rest)) : rest <:+ cs := by
  fun_induction scanUnits cs generalizing units with
  | case1 => simp at h
  | case2 tail =>
    obtain ⟨-, rfl⟩ := by simpa using h
    exact List.suffix_cons _ _
  | case3 a b c d tail ih =>
    obtain ⟨_, _, ⟨us, r⟩, hr, he⟩ := by
      simpa only [Option.bind_eq_bind, Option.bind_eq_some_iff] using h
    obtain ⟨-, rfl⟩ := by simpa using he
    exact (ih hr).trans ⟨['\\', 'u', a, b, c, d], rfl⟩
  | case4 c tail _ ih =>
    obtain ⟨_, _, ⟨us, r⟩, hr, he⟩ := by
      simpa only [Option.bind_eq_bind, Option.bind_eq_some_iff] using h
    obtain ⟨-, rfl⟩ := by simpa using he
    exact (ih hr).trans ⟨['\\', c], rfl⟩
  | case5 => simp at h
  | case6 c tail _ _ _ _ ih =>
    obtain ⟨⟨us, r⟩, hr, he⟩ := by simpa only [Option.bind_eq_bind, Option.bind_eq_some_iff] using h
    obtain ⟨-, rfl⟩ := by simpa using he
    exact (ih hr).trans (List.suffix_cons _ _)

/-- A sign at the front of a text, if there is one, and what follows it. -/
def scanSign : List Char → Bool × List Char
  | '-' :: rest => (true, rest)
  | '+' :: rest => (false, rest)
  | cs => (false, cs)

theorem scanSign_suffix (cs : List Char) : (scanSign cs).2 <:+ cs := by
  unfold scanSign
  split
  · exact List.suffix_cons _ _
  · exact List.suffix_cons _ _
  · exact List.suffix_refl _

/-- An exponent with its sign at the front of a text, if there is one, and what follows it. -/
def scanExponent (cs : List Char) : Option (Int × List Char) :=
  match cs with
  | e :: rest =>
    let signed := scanSign rest
    let digits := signed.2.takeWhile Char.isDigit
    if (e = 'e' ∨ e = 'E') ∧ digits ≠ [] then
      let size : Int := digitsValue digits
      some (if signed.1 then -size else size, signed.2.dropWhile Char.isDigit)
    else none
  | [] => none

theorem suffix_of_scanExponent {cs : List Char} {n : Int} {rest : List Char}
    (h : scanExponent cs = some (n, rest)) : rest <:+ cs := by
  unfold scanExponent at h
  split at h
  · rename_i e tail
    simp only at h
    split at h
    · have hr : (scanSign tail).2.dropWhile Char.isDigit = rest :=
        congrArg Prod.snd (Option.some.inj h)
      rw [← hr]
      exact (List.dropWhile_suffix _).trans ((scanSign_suffix tail).trans (List.suffix_cons _ _))
    · simp at h
  · simp at h

/-- A point and the digits after it at the front of a text, if they are there, and what follows. -/
def scanFraction (cs : List Char) : Option (List Char × List Char) :=
  match cs with
  | '.' :: rest =>
    let digits := rest.takeWhile Char.isDigit
    if digits.isEmpty then none else some (digits, rest.dropWhile Char.isDigit)
  | _ => none

theorem suffix_of_scanFraction {cs digits rest : List Char}
    (h : scanFraction cs = some (digits, rest)) : rest <:+ cs := by
  unfold scanFraction at h
  split at h
  · rename_i tail
    simp only at h
    split at h
    · simp at h
    · obtain ⟨-, rfl⟩ := by simpa using h
      exact (List.dropWhile_suffix _).trans ⟨['.'], rfl⟩
  · simp at h

/-- A number whose whole part is given, with the fraction and exponent that follow. -/
def finishNumber (negative : Bool) (whole : List Char) (cs : List Char) : Token × List Char :=
  match scanFraction cs, scanExponent ((scanFraction cs).elim cs Prod.snd) with
  | none, none =>
    match Decimal.wholeNumber negative whole with
    | .ok n => (.plain (.int n), cs)
    | .error f => (.fault f, cs)
  | some (fraction, rest), none => (.plain (.float (decimal fraction 0)), rest)
  | none, some (exponent, rest) => (.plain (.float (decimal [] exponent)), rest)
  | some (fraction, _), some (exponent, rest) => (.plain (.float (decimal fraction exponent)), rest)
where
  decimal (fraction : List Char) (exponent : Int) : Binary64 :=
    Binary64.ofDecimal negative (digitsValue (whole ++ fraction)) (exponent - fraction.length)

theorem finishNumber_suffix (negative : Bool) (whole cs : List Char) :
    (finishNumber negative whole cs).2 <:+ cs := by
  unfold finishNumber
  split
  · split <;> exact List.suffix_refl _
  · rename_i hf he
    exact suffix_of_scanFraction hf
  · rename_i hf he
    simpa [hf] using suffix_of_scanExponent he
  · rename_i hf he
    have h := suffix_of_scanExponent he
    simp only [hf, Option.elim_some] at h
    exact h.trans (suffix_of_scanFraction hf)

/-- A number at the front of a text, after its sign. -/
def scanNumber? (negative : Bool) (cs : List Char) : Option (Token × List Char) :=
  match cs with
  | '0' :: rest => some (finishNumber negative ['0'] rest)
  | c :: _ =>
    if c.isDigit then
      some (finishNumber negative (cs.takeWhile Char.isDigit) (cs.dropWhile Char.isDigit))
    else none
  | [] => none

theorem suffix_of_scanNumber? {negative : Bool} {cs rest : List Char} {token : Token}
    (h : scanNumber? negative cs = some (token, rest)) : rest <:+ cs.tail := by
  unfold scanNumber? at h
  split at h
  · rename_i tail
    have hr : (finishNumber negative ['0'] tail).2 = rest := congrArg Prod.snd (Option.some.inj h)
    rw [← hr]
    exact finishNumber_suffix ..
  · rename_i c tail _
    split at h
    · rename_i hd
      have hr : (finishNumber negative _ ((c :: tail).dropWhile Char.isDigit)).2 = rest :=
        congrArg Prod.snd (Option.some.inj h)
      rw [List.dropWhile_cons_of_pos hd] at hr
      rw [← hr]
      exact (finishNumber_suffix ..).trans (List.dropWhile_suffix _)
    · simp at h
  · simp at h

/-- What follows a word at the front of a text. -/
def afterWord? : List Char → List Char → Option (List Char)
  | [], cs => some cs
  | w :: ws, c :: cs => if w = c then afterWord? ws cs else none
  | _ :: _, [] => none

theorem suffix_of_afterWord? {word cs rest : List Char} (h : afterWord? word cs = some rest) :
    rest <:+ cs := by
  fun_induction afterWord? word cs with
  | case1 cs => simp_all
  | case2 ws c cs ih => exact (ih h).trans (List.suffix_cons _ _)
  | case3 => simp at h
  | case4 => simp at h

/-- The words that stand for values. -/
def words : List (String × Value) :=
  [("null", .null), ("true", .bool true), ("false", .bool false), ("NaN", .float Binary64.nan),
   ("Infinity", .float (Binary64.infinity false)), ("-Infinity", .float (Binary64.infinity true))]

/-- A word at the front of a text. -/
def scanWord? (cs : List Char) : Option (Token × List Char) :=
  words.findSome? fun (word, v) => (afterWord? word.toList cs).map fun rest => (.plain v, rest)

/-- Every word that stands for a value has a letter. -/
theorem words_ne_empty : ∀ entry ∈ words, entry.1.toList ≠ [] := by
  simp [words]

theorem suffix_of_scanWord? {c : Char} {cs rest : List Char} {token : Token}
    (h : scanWord? (c :: cs) = some (token, rest)) : rest <:+ cs := by
  obtain ⟨⟨word, v⟩, hmem, hword⟩ := List.exists_of_findSome?_eq_some h
  obtain ⟨r, hr, he⟩ := Option.map_eq_some_iff.1 hword
  obtain ⟨-, rfl⟩ := by simpa using he
  have hne := words_ne_empty _ hmem
  match hw : word.toList with
  | [] => exact absurd hw hne
  | w :: ws =>
    rw [hw, afterWord?] at hr
    split at hr
    · exact suffix_of_afterWord? hr
    · simp at hr

/-- The token at the front of a text that starts with no blank, and what follows it. -/
def scanToken (c : Char) (cs : List Char) : Token × List Char :=
  match c with
  | '[' => (.openList, cs)
  | ']' => (.closeList, cs)
  | '\x7b' => (.openTable, cs)
  | '\x7d' => (.closeTable, cs)
  | ',' => (.comma, cs)
  | ':' => (.colon, cs)
  | '"' =>
    match scanUnits cs with
    | some (units, rest) => (textToken units, rest)
    | none => (.fault .malformed, [])
  | _ =>
    match scanWord? (c :: cs) with
    | some found => found
    | none =>
      match (if c = '-' then scanNumber? true cs else scanNumber? false (c :: cs)) with
      | some found => found
      | none => (.fault .malformed, [])

/-- What follows a token is the end of what it was read from. -/
theorem scanToken_suffix (c : Char) (cs : List Char) : (scanToken c cs).2 <:+ cs := by
  unfold scanToken
  split
  · exact List.suffix_refl _
  · exact List.suffix_refl _
  · exact List.suffix_refl _
  · exact List.suffix_refl _
  · exact List.suffix_refl _
  · exact List.suffix_refl _
  · split
    · rename_i h
      exact suffix_of_scanUnits h
    · exact List.nil_suffix
  · split
    · rename_i h
      exact suffix_of_scanWord? h
    · split
      · rename_i h
        split at h
        · exact (suffix_of_scanNumber? h).trans (List.tail_suffix _)
        · exact suffix_of_scanNumber? h
      · exact List.nil_suffix

/-- Whether a character may stand between tokens. -/
def isGap (c : Char) : Bool := c = ' ' || c = '\t' || c = '\n' || c = '\r'

/-- The tokens of a text, up to the first place where none starts. -/
def Token.scan (cs : List Char) : List Token :=
  match cs with
  | [] => []
  | c :: rest =>
    if isGap c then scan rest
    else
      let found := scanToken c rest
      found.1 :: scan found.2
termination_by cs.length
decreasing_by
  · simp
  · exact Nat.lt_succ_of_le (scanToken_suffix c rest).length_le

end FileTags.Json
