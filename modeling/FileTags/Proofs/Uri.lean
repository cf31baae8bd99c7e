import FileTags.Identity
import FileTags.Proofs.Text.Utf8
import Mathlib.Data.List.TakeWhile
/-! # Paths in URIs

What stands in the path of a URI is percent signs and characters that stand for themselves, and the
hexadecimal digits are among those (`mem_encode`).  So nothing in it is a control, ends the path or
is passed over, and all of it is ASCII.

Read back it is the text that was written (`decode_encode`): each byte comes back from the one
character or the three that it became, and the bytes of a text are read as the text.
-/
namespace FileTags.Uri

/-! ## What a path is written with -/

/-- A character that stands for itself in a URI. -/
def IsPlain (c : Char) : Prop := c.toNat < 0x80 ∧ isPlainByte (UInt8.ofNat c.toNat) = true

instance (c : Char) : Decidable (IsPlain c) := inferInstanceAs (Decidable (_ ∧ _))

/-- A byte that stands for itself is a visible character of ASCII. -/
theorem isPlainByte_bounds {b : UInt8} (h : isPlainByte b = true) :
    0x2D ≤ b.toNat ∧ b.toNat ≤ 0x7E := by
  simp only [isPlainByte, Bool.or_eq_true, Bool.and_eq_true, decide_eq_true_eq, beq_iff_eq,
    UInt8.le_iff_toNat_le, ← UInt8.toNat_inj] at h
  simp at h
  omega

theorem IsPlain.bounds {c : Char} (h : IsPlain c) : 0x2D ≤ c.toNat ∧ c.toNat ≤ 0x7E := by
  have hnat : (UInt8.ofNat c.toNat).toNat = c.toNat := by
    rw [UInt8.toNat_ofNat']
    exact Nat.mod_eq_of_lt (Nat.lt_trans h.1 (by decide))
  have hbounds := isPlainByte_bounds h.2
  rwa [hnat] at hbounds

/-- The character of a byte that stands for itself. -/
theorem toNat_ofNat_of_isPlainByte {b : UInt8} (h : isPlainByte b = true) :
    (Char.ofNat b.toNat).toNat = b.toNat := by
  have hvalid : b.toNat.isValidChar := by
    have hbounds := isPlainByte_bounds h
    exact Or.inl (by omega)
  rw [Char.ofNat, dif_pos hvalid]
  rfl

theorem isPlain_ofNat {b : UInt8} (h : isPlainByte b = true) : IsPlain (Char.ofNat b.toNat) := by
  have hbounds := isPlainByte_bounds h
  rw [IsPlain, toNat_ofNat_of_isPlainByte h, UInt8.ofNat_toNat]
  exact ⟨by omega, h⟩

/-- The two digits of a byte. -/
theorem hexUpper_two (n : Nat) :
    Text.hexUpper 2 n =
      [Text.upperDigits.getD (n / 16 % 16) '0', Text.upperDigits.getD (n % 16) '0'] := rfl

theorem isPlain_upperDigits : ∀ d < 16, IsPlain (Text.upperDigits.getD d '0') := by decide

theorem hexValue?_upperDigits :
    ∀ d < 16, Text.hexValue? (Text.upperDigits.getD d '0') = some d := by
  decide

/-- **A path is written with percent signs and characters that stand for themselves.** -/
theorem mem_encode {cs : List Char} {c : Char} (h : c ∈ encode cs) : c = '%' ∨ IsPlain c := by
  obtain ⟨b, -, hc⟩ := List.mem_flatMap.1 h
  by_cases hb : isPlainByte b = true
  · rw [encodeByte, if_pos hb] at hc
    obtain rfl := List.mem_singleton.1 hc
    exact .inr (isPlain_ofNat hb)
  · rw [encodeByte, if_neg hb, hexUpper_two] at hc
    have hdigit : ∀ d, IsPlain (Text.upperDigits.getD (d % 16) '0') := fun d =>
      isPlain_upperDigits _ (Nat.mod_lt d (by decide))
    rcases List.mem_cons.1 hc with rfl | hc
    · exact .inl rfl
    · rcases List.mem_cons.1 hc with rfl | hc
      · exact .inr (hdigit _)
      · obtain rfl := List.mem_singleton.1 hc
        exact .inr (hdigit _)

/-- What stands in the path of a URI is no control character. -/
theorem isControl_encode {cs : List Char} {c : Char} (h : c ∈ encode cs) :
    Identity.isControl c = false := by
  rcases mem_encode h with rfl | hplain
  · decide
  · obtain ⟨hlow, hhigh⟩ := hplain.bounds
    rw [Identity.isControl, Bool.or_eq_false_iff]
    exact ⟨decide_eq_false (by omega), decide_eq_false (by omega)⟩

/-- What stands in the path of a URI is ASCII. -/
theorem isAscii_encode {cs : List Char} {c : Char} (h : c ∈ encode cs) : isAscii c = true := by
  rcases mem_encode h with rfl | hplain
  · decide
  · exact decide_eq_true hplain.1

/-- A character that no path is written with. -/
theorem notMem_encode {c : Char} (hpercent : c ≠ '%') (hplain : ¬ IsPlain c) (cs : List Char) :
    c ∉ encode cs := fun h => (mem_encode h).elim hpercent hplain

/-- How many characters the path of a URI has: one for each byte that stands for itself, three for
any other. -/
def encodedLength (cs : List Char) : Nat :=
  ((Text.utf8Bytes cs).map fun b => if isPlainByte b then 1 else 3).sum

theorem length_encode (cs : List Char) : (encode cs).length = encodedLength cs := by
  rw [encode, List.length_flatMap, encodedLength]
  refine congrArg List.sum (List.map_congr_left fun b _ => ?_)
  rw [encodeByte]
  split
  · rfl
  · rw [List.length_cons, Text.hexUpper, Text.length_hexWith]

theorem isLetter_bounds {c : Char} (h : isLetter c = true) :
    (0x61 ≤ c.toNat ∧ c.toNat ≤ 0x7A) ∨ (0x41 ≤ c.toNat ∧ c.toNat ≤ 0x5A) := by
  simp only [isLetter, Bool.or_eq_true, Bool.and_eq_true, decide_eq_true_eq, Char.le_def,
    UInt32.le_iff_toNat_le] at h
  exact h

theorem isPlain_of_isLetter {c : Char} (h : isLetter c = true) : IsPlain c := by
  have hbounds := isLetter_bounds h
  have hnat : (UInt8.ofNat c.toNat).toNat = c.toNat := by
    rw [UInt8.toNat_ofNat']
    omega
  refine ⟨by omega, ?_⟩
  simp only [isPlainByte, UInt8.le_iff_toNat_le, hnat]
  simp
  omega

/-- The first character of a path, if it stands for itself, and what the others become. -/
theorem encode_cons {c : Char} (h : IsPlain c) (cs : List Char) : encode (c :: cs) = c :: encode cs := by
  obtain ⟨hascii, hplain⟩ := h
  have hbyte : String.utf8EncodeChar c = [UInt8.ofNat c.toNat] := by
    rw [String.utf8EncodeChar]
    exact if_pos (Nat.le_of_lt_succ hascii)
  have hnat : (UInt8.ofNat c.toNat).toNat = c.toNat := by
    rw [UInt8.toNat_ofNat']
    omega
  have hrest : encode (c :: cs) = encodeByte (UInt8.ofNat c.toNat) ++ encode cs := by
    rw [encode, Text.utf8Bytes, List.flatMap_cons, hbyte, List.flatMap_append,
      List.flatMap_singleton]
    rfl
  rw [hrest, encodeByte, if_pos hplain, hnat, Char.ofNat_toNat, List.singleton_append]

theorem encode_plain {cs : List Char} (h : ∀ c ∈ cs, IsPlain c) : encode cs = cs := by
  induction cs with
  | nil => rfl
  | cons c cs ih =>
    obtain ⟨hc, hcs⟩ := List.forall_mem_cons.1 h
    rw [encode_cons hc, ih hcs]

/-! ## Reading it back -/

theorem percentBytes_cons {c : Char} (h : c ≠ '%') (rest : List Char) :
    percentBytes (c :: rest) = UInt8.ofNat c.toNat :: percentBytes rest := by
  rw [percentBytes]
  intro a b more hc
  exact absurd hc h

theorem percentBytes_hex {a b : Char} {high low : Nat} (ha : Text.hexValue? a = some high)
    (hb : Text.hexValue? b = some low) (rest : List Char) :
    percentBytes ('%' :: a :: b :: rest) =
      UInt8.ofNat (16 * high + low) :: percentBytes rest := by
  rw [percentBytes, ha, hb]

/-- **One byte is read back**, from the one character or the three that it became. -/
theorem percentBytes_encodeByte (b : UInt8) (rest : List Char) :
    percentBytes (encodeByte b ++ rest) = b :: percentBytes rest := by
  by_cases hb : isPlainByte b = true
  · have hpercent : Char.ofNat b.toNat ≠ '%' := by
      intro hc
      have hplain := isPlain_ofNat hb
      rw [hc] at hplain
      revert hplain
      decide
    rw [encodeByte, if_pos hb, List.singleton_append, percentBytes_cons hpercent,
      toNat_ofNat_of_isPlainByte hb, UInt8.ofNat_toNat]
  · have hvalue : ∀ d, Text.hexValue? (Text.upperDigits.getD (d % 16) '0') = some (d % 16) :=
      fun d => hexValue?_upperDigits _ (Nat.mod_lt d (by decide))
    have hbyte : 16 * (b.toNat / 16 % 16) + b.toNat % 16 = b.toNat := by
      have hlt := b.toNat_lt
      omega
    rw [encodeByte, if_neg hb, hexUpper_two]
    refine (percentBytes_hex (hvalue _) (hvalue _) rest).trans ?_
    rw [hbyte, UInt8.ofNat_toNat]

theorem percentBytes_flatMap (bs : List UInt8) : percentBytes (bs.flatMap encodeByte) = bs := by
  induction bs with
  | nil => rfl
  | cons b bs ih => rw [List.flatMap_cons, percentBytes_encodeByte, ih]

/-- ASCII characters are one run of bytes. -/
theorem decode_ascii {cs : List Char} (h : ∀ c ∈ cs, isAscii c = true) :
    decode cs = Text.decodeLossy (percentBytes cs) := by
  cases cs with
  | nil => rw [decode, percentBytes, Text.decodeLossy]
  | cons c cs =>
    obtain ⟨hc, hcs⟩ := List.forall_mem_cons.1 h
    rw [decode, if_pos hc, List.takeWhile_eq_self_iff.2 hcs, List.dropWhile_eq_nil_iff.2 hcs,
      decode, List.append_nil]

/-- **What is written in a URI is read back.** -/
theorem decode_encode (cs : List Char) : decode (encode cs) = cs := by
  rw [decode_ascii fun c hc => isAscii_encode hc, encode, percentBytes_flatMap,
    Text.decodeLossy_utf8Bytes]

end FileTags.Uri
