import FileTags.Text.Utf8
import Mathlib.Data.List.Forall2
import Mathlib.Tactic.IntervalCases
/-! # Bytes back to a text

The bytes of a text are read back as the text, without a replacement (`decodeLossy_utf8Bytes`).  The
reader looks at a leading byte, takes as many of the bytes after it as it asks for, each in its range,
and puts them together (`decodeLossy_lead`).  The ranges that a leading byte gives keep no character
out: the first of them is narrower for four leading bytes, but only by numbers that have a shorter
form, are surrogates, or lie above the last code point.
-/
namespace FileTags.Text

/-- A byte lies in a range. -/
def InRange (range : UInt8 × UInt8) (b : UInt8) : Prop := range.1 ≤ b ∧ b ≤ range.2

theorem takeInRanges_of_inRange {ranges : List (UInt8 × UInt8)} {following : List UInt8}
    (h : List.Forall₂ InRange ranges following) (bs : List UInt8) :
    takeInRanges ranges (following ++ bs) = following := by
  induction h with
  | nil => cases bs <;> rfl
  | cons hb _ ih =>
    rw [List.cons_append, takeInRanges, decide_eq_true hb.1, decide_eq_true hb.2, Bool.true_and,
      if_pos rfl, ih]

/-- **One character is read**: a leading byte with the bytes that it asks for. -/
theorem decodeLossy_lead {lead : UInt8} {ranges : List (UInt8 × UInt8)} {following : List UInt8}
    (hlead : followRanges? lead = some ranges) (h : List.Forall₂ InRange ranges following)
    (bs : List UInt8) :
    decodeLossy (lead :: (following ++ bs)) = charOfBytes lead following :: decodeLossy bs := by
  rw [decodeLossy, hlead]
  dsimp only
  rw [takeInRanges_of_inRange h, if_pos h.length_eq.symm, List.drop_left]

/-! ## What leading bytes ask for -/

theorem followRanges?_one {n : Nat} (h : n ≤ 0x7F) : followRanges? (UInt8.ofNat n) = some [] := by
  have hnat : (UInt8.ofNat n).toNat = n := by
    rw [UInt8.toNat_ofNat']
    omega
  rw [followRanges?, if_pos]
  rw [UInt8.lt_iff_toNat_lt, hnat]
  exact Nat.lt_succ_of_le h

theorem followRanges?_two {n : Nat} (hlow : 0xC2 ≤ n) (hhigh : n ≤ 0xDF) :
    followRanges? (UInt8.ofNat n) = some [(0x80, 0xBF)] := by
  interval_cases n <;> rfl

theorem followRanges?_three {n : Nat} (hlow : 0xE0 ≤ n) (hhigh : n ≤ 0xEF) :
    followRanges? (UInt8.ofNat n) = some
      [(if n = 0xE0 then 0xA0 else 0x80, if n = 0xED then 0x9F else 0xBF), (0x80, 0xBF)] := by
  interval_cases n <;> rfl

theorem followRanges?_four {n : Nat} (hlow : 0xF0 ≤ n) (hhigh : n ≤ 0xF4) :
    followRanges? (UInt8.ofNat n) = some
      [(if n = 0xF0 then 0x90 else 0x80, if n = 0xF4 then 0x8F else 0xBF), (0x80, 0xBF),
        (0x80, 0xBF)] := by
  interval_cases n <;> rfl

/-- A byte that goes on with a character, if it is the first to do so or a later one. -/
theorem inRange_following {low high : UInt8} {n : Nat} (hlow : low.toNat ≤ n % 64 + 128)
    (hhigh : n % 64 + 128 ≤ high.toNat) : InRange (low, high) (UInt8.ofNat (n % 64 + 128)) := by
  have hnat : (UInt8.ofNat (n % 64 + 128)).toNat = n % 64 + 128 := by
    rw [UInt8.toNat_ofNat']
    omega
  rw [InRange, UInt8.le_iff_toNat_le, UInt8.le_iff_toNat_le, hnat]
  exact ⟨hlow, hhigh⟩

theorem inRange_last (n : Nat) : InRange (0x80, 0xBF) (UInt8.ofNat (n % 64 + 128)) := by
  refine inRange_following ?_ ?_
  · exact Nat.le_add_left 128 _
  · show n % 64 + 128 ≤ 191
    omega

/-! ## One character -/

/-! The numbers that bytes put together, each byte given by a number of its own. -/

theorem charOfBytes_one (top : Nat) :
    charOfBytes (UInt8.ofNat top) [] = Char.ofNat (top % 256) := by
  rw [charOfBytes]
  simp only [List.length_nil, List.foldl_nil, UInt8.toNat_ofNat']

theorem charOfBytes_two (top a : Nat) :
    charOfBytes (UInt8.ofNat top) [UInt8.ofNat a] =
      Char.ofNat (64 * (top % 256 % 32) + a % 256 % 64) := by
  rw [charOfBytes]
  simp only [List.length_cons, List.length_nil, List.foldl_cons, List.foldl_nil,
    UInt8.toNat_ofNat']

theorem charOfBytes_three (top a b : Nat) :
    charOfBytes (UInt8.ofNat top) [UInt8.ofNat a, UInt8.ofNat b] =
      Char.ofNat (64 * (64 * (top % 256 % 16) + a % 256 % 64) + b % 256 % 64) := by
  rw [charOfBytes]
  simp only [List.length_cons, List.length_nil, List.foldl_cons, List.foldl_nil,
    UInt8.toNat_ofNat']

theorem charOfBytes_four (top a b c : Nat) :
    charOfBytes (UInt8.ofNat top) [UInt8.ofNat a, UInt8.ofNat b, UInt8.ofNat c] =
      Char.ofNat (64 * (64 * (64 * (top % 256 % 8) + a % 256 % 64) + b % 256 % 64)
        + c % 256 % 64) := by
  rw [charOfBytes]
  simp only [List.length_cons, List.length_nil, List.foldl_cons, List.foldl_nil,
    UInt8.toNat_ofNat']

/-- **The bytes of a character are read as the character.** -/
theorem decodeLossy_utf8EncodeChar (c : Char) (bs : List UInt8) :
    decodeLossy (String.utf8EncodeChar c ++ bs) = c :: decodeLossy bs := by
  have hvalid : c.toNat < 0xD800 ∨ 0xDFFF < c.toNat ∧ c.toNat < 0x110000 := c.valid
  have hchar : Char.ofNat c.toNat = c := Char.ofNat_toNat c
  rw [String.utf8EncodeChar, show c.val.toNat = c.toNat from rfl]
  generalize c.toNat = n at hvalid hchar
  -- One case for each number of bytes.
  split
  · rename_i hone
    refine (decodeLossy_lead (followRanges?_one hone) .nil bs).trans ?_
    have hn : n % 256 = n := by omega
    rw [charOfBytes_one, hn, hchar]
  split
  · rename_i htwo
    have hranges : followRanges? (UInt8.ofNat (n / 64 % 32 + 192)) = some [(0x80, 0xBF)] :=
      followRanges?_two (by omega) (by omega)
    refine (decodeLossy_lead hranges (.cons (inRange_last n) .nil) bs).trans ?_
    have hn : 64 * ((n / 64 % 32 + 192) % 256 % 32) + (n % 64 + 128) % 256 % 64 = n := by omega
    rw [charOfBytes_two, hn, hchar]
  split
  · rename_i hthree
    have hranges := @followRanges?_three (n / 4096 % 16 + 224) (by omega) (by omega)
    have hfirst : InRange (if n / 4096 % 16 + 224 = 0xE0 then 0xA0 else 0x80,
        if n / 4096 % 16 + 224 = 0xED then 0x9F else 0xBF)
        (UInt8.ofNat (n / 64 % 64 + 128)) := by
      refine inRange_following ?_ ?_
      · split
        · show 160 ≤ _
          omega
        · show 128 ≤ _
          omega
      · split
        · show _ ≤ 159
          omega
        · show _ ≤ 191
          omega
    refine (decodeLossy_lead hranges (.cons hfirst (.cons (inRange_last n) .nil)) bs).trans ?_
    have hn : 64 * (64 * ((n / 4096 % 16 + 224) % 256 % 16) + (n / 64 % 64 + 128) % 256 % 64)
        + (n % 64 + 128) % 256 % 64 = n := by omega
    rw [charOfBytes_three, hn, hchar]
  · rename_i hone htwo hthree
    have hranges := @followRanges?_four (n / 262144 % 8 + 240) (by omega) (by omega)
    have hfirst : InRange (if n / 262144 % 8 + 240 = 0xF0 then 0x90 else 0x80,
        if n / 262144 % 8 + 240 = 0xF4 then 0x8F else 0xBF)
        (UInt8.ofNat (n / 4096 % 64 + 128)) := by
      refine inRange_following ?_ ?_
      · split
        · show 144 ≤ _
          omega
        · show 128 ≤ _
          omega
      · split
        · show _ ≤ 143
          omega
        · show _ ≤ 191
          omega
    refine (decodeLossy_lead hranges
      (.cons hfirst (.cons (inRange_last (n / 64)) (.cons (inRange_last n) .nil))) bs).trans ?_
    have hn : 64 * (64 * (64 * ((n / 262144 % 8 + 240) % 256 % 8)
        + (n / 4096 % 64 + 128) % 256 % 64) + (n / 64 % 64 + 128) % 256 % 64)
        + (n % 64 + 128) % 256 % 64 = n := by omega
    rw [charOfBytes_four, hn, hchar]

/-- **The bytes of a text are read as the text.** -/
theorem decodeLossy_utf8Bytes (cs : List Char) : decodeLossy (utf8Bytes cs) = cs := by
  induction cs with
  | nil => rw [utf8Bytes, List.flatMap_nil, decodeLossy]
  | cons c cs ih =>
    rw [utf8Bytes, List.flatMap_cons, decodeLossy_utf8EncodeChar]
    exact congrArg (c :: ·) ih

end FileTags.Text
