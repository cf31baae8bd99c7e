import FileTags.Decimal.Numeral
import Mathlib.Algebra.Ring.Nat
/-! # Runs of digits

The value of a run of decimal digits is put together from its parts (`digitsValue_append`).  A whole
number is written as a run of digits that has its value (`digitsValue_toString`), of which the first is
a zero for zero alone (`toString_front`), and which is as long as its size needs.
-/
namespace FileTags.Decimal

/-- Digits and nothing else. -/
def AllDigits (cs : List Char) : Prop := ∀ c ∈ cs, c.isDigit = true

theorem AllDigits.append {cs ds : List Char} (h : AllDigits cs) (h' : AllDigits ds) :
    AllDigits (cs ++ ds) := fun c hc => (List.mem_append.1 hc).elim (h c) (h' c)

theorem AllDigits.of_sublist {cs ds : List Char} (h : AllDigits ds) (hs : cs.Sublist ds) :
    AllDigits cs := fun c hc => h c (hs.subset hc)

theorem allDigits_zeros (n : Nat) : AllDigits (List.replicate n '0') := by
  intro c hc
  rw [List.eq_of_mem_replicate hc]
  rfl

/-! ## Values -/

theorem digitsValue_append (cs ds : List Char) :
    digitsValue (cs ++ ds) = digitsValue cs * 10 ^ ds.length + digitsValue ds :=
  calc digitsValue (cs ++ ds) = Nat.ofDigitChars 10 ds (digitsValue cs) :=
        Nat.ofDigitChars_append 0
    _ = 10 ^ ds.length * digitsValue cs + digitsValue ds := Nat.ofDigitChars_eq_ofDigitChars_zero
    _ = digitsValue cs * 10 ^ ds.length + digitsValue ds := by rw [Nat.mul_comm]

theorem digitsValue_zeros (n : Nat) : digitsValue (List.replicate n '0') = 0 :=
  Nat.ofDigitChars_replicate_zero

theorem digitsValue_zeros_append (n : Nat) (cs : List Char) :
    digitsValue (List.replicate n '0' ++ cs) = digitsValue cs := by
  rw [digitsValue_append, digitsValue_zeros, Nat.zero_mul, Nat.zero_add]

theorem digitsValue_append_zeros (cs : List Char) (n : Nat) :
    digitsValue (cs ++ List.replicate n '0') = digitsValue cs * 10 ^ n := by
  rw [digitsValue_append, digitsValue_zeros, List.length_replicate, Nat.add_zero]

/-- So many digits stand for less than that power of ten. -/
theorem digitsValue_lt {cs : List Char} (h : AllDigits cs) : digitsValue cs < 10 ^ cs.length := by
  induction cs with
  | nil => decide
  | cons c cs ih =>
    have hdigit : digitsValue [c] ≤ 9 := by
      have hc : '0'.toNat ≤ c.toNat ∧ c.toNat ≤ '9'.toNat := by
        simpa [Char.isDigit, UInt32.le_iff_toNat_le] using h c List.mem_cons_self
      have hzero : '0'.toNat = 48 := rfl
      have hnine : '9'.toNat = 57 := rfl
      show 10 * 0 + (c.toNat - '0'.toNat) ≤ 9
      omega
    have hrest := ih fun d hd => h d (List.mem_cons_of_mem _ hd)
    have hfirst := Nat.mul_le_mul_right (10 ^ cs.length) hdigit
    have hsplit : digitsValue (c :: cs) = digitsValue [c] * 10 ^ cs.length + digitsValue cs :=
      digitsValue_append [c] cs
    rw [hsplit, List.length_cons, Nat.pow_succ]
    omega

/-! ## Whole numbers -/

theorem toList_toString (n : Nat) : (toString n).toList = Nat.toDigits 10 n := by
  rw [Nat.toString_eq_ofList_toDigits, String.toList_ofList]

theorem digitsValue_toString (n : Nat) : digitsValue (toString n).toList = n := by
  rw [toList_toString]
  exact Nat.ofDigitChars_ten_toDigits

theorem allDigits_toString (n : Nat) : AllDigits (toString n).toList := by
  intro c hc
  rw [toList_toString] at hc
  exact Nat.isDigit_of_mem_toDigits (by decide) (by decide) hc

theorem length_toString_le {n k : Nat} (hk : 0 < k) (h : n < 10 ^ k) :
    (toString n).toList.length ≤ k := by
  rw [toList_toString]
  exact (Nat.length_toDigits_le_iff (by decide) hk).2 h

/-- No zero stands in front, unless the number is zero. -/
theorem toString_front (n : Nat) : ∃ c cs, (toString n).toList = c :: cs ∧ (c = '0' → n = 0) := by
  rw [toList_toString]
  induction n using Nat.strongRecOn with
  | ind n ih =>
    rw [Nat.toDigits_eq_if (by decide)]
    split
    · rename_i hsmall
      have hfirst : ∀ d < 10, Nat.digitChar d = '0' → d = 0 := by decide
      exact ⟨n.digitChar, [], rfl, hfirst n hsmall⟩
    · rename_i hlarge
      obtain ⟨c, cs, hcs, hc⟩ := ih (n / 10) (by omega)
      rw [hcs]
      exact ⟨c, _, rfl, fun h => by have := hc h; omega⟩

/-- A whole part: digits, of which the first is a zero only if it is the only one. -/
structure IsWhole (cs : List Char) : Prop where
  digits : AllDigits cs
  front : ∃ c rest, cs = c :: rest ∧ (c = '0' → rest = [])

theorem IsWhole.startsWithDigit {cs : List Char} (h : IsWhole cs) (more : List Char) :
    ∃ c rest, cs ++ more = c :: rest ∧ c.isDigit = true := by
  obtain ⟨c, rest, rfl, -⟩ := h.front
  exact ⟨c, rest ++ more, rfl, h.digits c List.mem_cons_self⟩

/-- **A whole number is written as a whole part.** -/
theorem isWhole_toString (n : Nat) : IsWhole (toString n).toList := by
  refine ⟨allDigits_toString n, ?_⟩
  obtain ⟨c, rest, hcs, hc⟩ := toString_front n
  refine ⟨c, rest, hcs, fun h0 => ?_⟩
  rw [hc h0] at hcs
  exact (List.cons.inj hcs).2.symm

end FileTags.Decimal
