import FileTags.Proofs.Decimal.Digits
import FileTags.Proofs.Decimal.Rounding
import Mathlib.Data.List.TakeWhile
/-! # Numbers read back from their text

A finite number is written by decimal digits that are rounded to it again (`ofDecimal_shortest`): those
that the search finds were tried there, and the exact value, which stands in for them, is one the
rounding keeps.  However the digits are laid out, with a point among them or with an exponent, the text
spells the same decimal (`exists_spelled`).  So the text of a number is one that is read as that number
(`exists_render`).
-/
namespace FileTags.Decimal

/-! ## Bits -/

namespace Binary64

/-- The magnitudes that numbers have, infinity included. -/
theorem toNat_bits_ofMagnitude (negative : Bool) {magnitude : Nat} (h : magnitude ≤ infinityBits) :
    (ofMagnitude negative magnitude).bits.toNat =
      magnitude + if negative then Nat.pow 2 63 else 0 := by
  have hinfinity : infinityBits = 0x7FF * 2 ^ 52 := rfl
  have hlt : magnitude + (if negative then Nat.pow 2 63 else 0) < 2 ^ 64 := by
    cases negative with
    | true =>
      show magnitude + 2 ^ 63 < 2 ^ 64
      omega
    | false =>
      show magnitude + 0 < 2 ^ 64
      omega
  exact UInt64.toNat_ofNat_of_lt hlt

theorem ofMagnitude_inj {negative : Bool} {a b : Nat} (ha : a ≤ infinityBits) (hb : b ≤ infinityBits)
    (h : ofMagnitude negative a = ofMagnitude negative b) : a = b := by
  have hbits := congrArg (fun x : Binary64 => x.bits.toNat) h
  simp only [toNat_bits_ofMagnitude negative ha, toNat_bits_ofMagnitude negative hb] at hbits
  omega

theorem magnitude_of_ofMagnitude (negative : Bool) {magnitude : Nat} (h : magnitude ≤ infinityBits) :
    (ofMagnitude negative magnitude).bits.toNat % Nat.pow 2 63 = magnitude := by
  have hinfinity : infinityBits = 0x7FF * 2 ^ 52 := rfl
  have hpow : Nat.pow 2 63 = 2 ^ 63 := rfl
  rw [toNat_bits_ofMagnitude negative h]
  cases negative <;> simp only [hpow, if_true, Bool.false_eq_true, if_false] <;> omega

theorem negative_of_ofMagnitude (negative : Bool) {magnitude : Nat} (h : magnitude ≤ infinityBits) :
    decide (Nat.pow 2 63 ≤ (ofMagnitude negative magnitude).bits.toNat) = negative := by
  have hinfinity : infinityBits = 0x7FF * 2 ^ 52 := rfl
  have hpow : Nat.pow 2 63 = 2 ^ 63 := rfl
  rw [toNat_bits_ofMagnitude negative h]
  cases negative <;> simp only [hpow, if_true, Bool.false_eq_true, if_false, decide_eq_true_eq,
    decide_eq_false_iff_not] <;> omega

/-- **What the bits of a finite number say** gives its magnitude again. -/
theorem view_ofMagnitude (negative : Bool) {magnitude : Nat} (h : magnitude < infinityBits) :
    ∃ m q, (ofMagnitude negative magnitude).view = .finite negative m q ∧
      magnitude = m + (q + 1074).toNat * 2 ^ 52 ∧ (magnitude ≠ 0 → Scaled m q) := by
  have hinfinity : infinityBits = 0x7FF * 2 ^ 52 := rfl
  have hpow : Nat.pow 2 52 = 2 ^ 52 := rfl
  have hexponent : magnitude / 2 ^ 52 ≠ 0x7FF := by omega
  rw [view, magnitude_of_ofMagnitude negative h.le, negative_of_ofMagnitude negative h.le]
  simp only [hpow, if_neg hexponent]
  split
  · rename_i hzero
    refine ⟨_, _, rfl, by omega, fun hne => ?_⟩
    exact { pos := by omega, lt := by omega, least := by omega, full := .inr rfl }
  · rename_i hone
    refine ⟨_, _, rfl, by omega, fun _ => ?_⟩
    exact { pos := by omega, lt := by omega, least := by omega, full := .inl (by omega) }

/-- Every decimal is rounded to a number of a magnitude that its sign does not matter for. -/
theorem exists_magnitude (digits : Nat) (exponent : Int) : ∃ magnitude ≤ infinityBits,
    ∀ negative, ofDecimal negative digits exponent = ofMagnitude negative magnitude := by
  simp only [ofDecimal_eq_ofRatio]
  by_cases hzero : digits * 10 ^ exponent.toNat = 0
  · exact ⟨0, Nat.zero_le _, fun negative => by rw [ofRatio, if_pos hzero]⟩
  · exact ⟨_, Nat.min_le_right _ _, fun negative => by rw [ofRatio, if_neg hzero]⟩

end Binary64

open Binary64

/-! ## Digits -/

theorem ofDecimal_of_onGrid? {x : Binary64} {m : Nat} {q i : Int} {d : Digits}
    (h : onGrid? x m q i = some d) : ofDecimal false d.digits d.exponent = x := by
  rw [onGrid?] at h
  generalize neighbours m q i = found at h
  obtain ⟨low, high, lowNearer⟩ := found
  dsimp only at h
  split at h
  · rename_i hlow hhigh
    rw [← Option.some.inj h]
    cases lowNearer with
    | true => exact eq_of_beq hlow
    | false => exact eq_of_beq hhigh
  · rename_i hlow _
    rw [← Option.some.inj h]
    exact eq_of_beq hlow
  · rename_i _ hhigh
    rw [← Option.some.inj h]
    exact eq_of_beq hhigh
  · cases h

/-- The exact value of a number is rounded to it. -/
theorem ofDecimal_exact (negative : Bool) {m : Nat} {q : Int} (hm : Scaled m q) :
    ofDecimal negative (m * 2 ^ q.toNat * 5 ^ (-q).toNat) (min q 0) =
      ofMagnitude negative (min (m + (q + 1074).toNat * 2 ^ 52) infinityBits) := by
  have hup : (min q 0).toNat = 0 := by omega
  have hdown : (-(min q 0)).toNat = (-q).toNat := by omega
  rw [ofDecimal_eq_ofRatio, hup, hdown, Nat.pow_zero, Nat.mul_one]
  refine ofRatio_exact negative (Nat.pow_pos (by decide)) hm ?_
  have hten : (10 : Nat) ^ (-q).toNat = 5 ^ (-q).toNat * 2 ^ (-q).toNat := by
    rw [← Nat.mul_pow]
  rw [hten]
  ring

/-- **The digits of a number are rounded to it**, whatever the sign. -/
theorem ofDecimal_shortest (negative : Bool) {m : Nat} {q : Int} {magnitude : Nat}
    (h : magnitude < infinityBits) (hm : Scaled m q)
    (hmagnitude : magnitude = m + (q + 1074).toNat * 2 ^ 52) :
    ofDecimal negative (shortest (ofMagnitude false magnitude) m q).digits
      (shortest (ofMagnitude false magnitude) m q).exponent = ofMagnitude negative magnitude := by
  rw [shortest]
  generalize hfound : (List.range 17).findSome? _ = found
  cases found with
  | some d =>
    obtain ⟨n, -, hgrid⟩ := List.exists_of_findSome?_eq_some hfound
    obtain ⟨M, hM, hall⟩ := exists_magnitude d.digits d.exponent
    have hplain := (hall false).symm.trans (ofDecimal_of_onGrid? hgrid)
    rw [Option.getD_some, hall negative, ofMagnitude_inj hM h.le hplain]
  | none =>
    rw [Option.getD_none]
    refine (ofDecimal_exact negative hm).trans ?_
    rw [← hmagnitude, Nat.min_eq_left h.le]

/-! ## Layout -/

/-- The digits after the point; without any, there is no point. -/
def pointed (fraction : List Char) : List Char := if fraction.isEmpty then [] else '.' :: fraction

/-- **The spelling of a decimal**: a whole part, and a fraction or an exponent or both. -/
inductive Spelled : List Char → Nat → Int → Prop where
  | positional {whole fraction : List Char} (hwhole : IsWhole whole) (h : AllDigits fraction)
      (hne : fraction ≠ []) :
      Spelled (whole ++ pointed fraction) (digitsValue (whole ++ fraction)) (-fraction.length)
  | scientific {whole fraction size : List Char} (negative : Bool) (hwhole : IsWhole whole)
      (h : AllDigits fraction) (hsize : AllDigits size) (hne : size ≠ []) :
      Spelled (whole ++ (pointed fraction ++ 'e' :: (if negative then '-' else '+') :: size))
        (digitsValue (whole ++ fraction))
        ((if negative then -(digitsValue size : Int) else digitsValue size) - fraction.length)

/-- The digits that are kept: a whole part without zeros at either end, unless there are none. -/
structure Kept (cs : List Char) : Prop where
  digits : AllDigits cs
  front : ∃ c rest, cs = c :: rest ∧ c ≠ '0'

theorem Kept.isWhole_append {cs ds : List Char} (h : Kept cs) (hd : AllDigits ds) :
    IsWhole (cs ++ ds) := by
  obtain ⟨c, rest, rfl, hc⟩ := h.front
  exact ⟨h.digits.append hd, c, rest ++ ds, rfl, fun h0 => absurd h0 hc⟩

theorem exists_zeros (cs : List Char) :
    ∃ n, cs = (cs.reverse.dropWhile (· == '0')).reverse ++ List.replicate n '0' := by
  have hzeros : cs.reverse.takeWhile (· == '0') =
      List.replicate (cs.reverse.takeWhile (· == '0')).length '0' :=
    List.eq_replicate_of_mem fun c hc => eq_of_beq (List.mem_takeWhile_imp (p := (· == '0')) hc)
  refine ⟨(cs.reverse.takeWhile (· == '0')).length, ?_⟩
  rw [← List.reverse_replicate, ← hzeros, ← List.reverse_append, List.takeWhile_append_dropWhile,
    List.reverse_reverse]

theorem Kept.take {cs : List Char} (h : Kept cs) {n : Nat} (hn : n ≠ 0) : Kept (cs.take n) := by
  obtain ⟨c, rest, rfl, hc⟩ := h.front
  obtain ⟨n, rfl⟩ := Nat.exists_eq_succ_of_ne_zero hn
  exact ⟨h.digits.of_sublist (List.take_sublist _ _), c, rest.take n, rfl, hc⟩

/-- **The zeros at the end are left out**, and the point stays where it is. -/
theorem significant_spec {d : Digits} (h : d.digits ≠ 0) :
    Kept (significant d).1 ∧ ∀ negative, ofDecimal negative d.digits d.exponent =
      ofDecimal negative (digitsValue (significant d).1)
        ((significant d).2 - (significant d).1.length) := by
  obtain ⟨n, hn⟩ := exists_zeros (toString d.digits).toList
  set kept := ((toString d.digits).toList.reverse.dropWhile (· == '0')).reverse with hkept
  have hsignificant : significant d = (kept, (toString d.digits).toList.length + d.exponent) := rfl
  have hvalue : d.digits = digitsValue kept * 10 ^ n := by
    rw [← digitsValue_append_zeros, ← hn, digitsValue_toString]
  constructor
  · rw [hsignificant]
    refine ⟨(allDigits_toString d.digits).of_sublist ?_, ?_⟩
    · rw [hn]
      exact List.sublist_append_left _ _
    · obtain ⟨c, cs, hcs, hc⟩ := toString_front d.digits
      cases hk : kept with
      | nil =>
        rw [hk] at hvalue
        exact absurd (hvalue.trans (Nat.zero_mul _)) h
      | cons c' rest =>
        rw [hcs, hk] at hn
        exact ⟨c', rest, rfl, fun h0 => h (hc ((List.cons.inj hn).1.trans h0))⟩
  · intro negative
    have hlength : (toString d.digits).toList.length = kept.length + n := by
      rw [hn, List.length_append, List.length_replicate]
    have hexponent : ((toString d.digits).toList.length : Int) + d.exponent - kept.length =
        d.exponent + n := by omega
    show _ = ofDecimal negative (digitsValue kept) (_ - kept.length)
    rw [hsignificant, hexponent, ← ofDecimal_mul_pow, ← hvalue]

theorem pointed_of_ne {fraction : List Char} (h : fraction ≠ []) :
    pointed fraction = '.' :: fraction := if_neg (by simpa using h)

theorem spelled_positional {kept : List Char} (h : Kept kept) (point : Int) :
    ∃ n e, Spelled (positional kept point) n e ∧ ∀ negative,
      ofDecimal negative n e = ofDecimal negative (digitsValue kept) (point - kept.length) := by
  rw [positional]
  split
  · rename_i hpoint
    obtain ⟨c, rest, hfront, -⟩ := h.front
    set fraction := List.replicate (-point).toNat '0' ++ kept with hfraction
    have hne : fraction ≠ [] := by simp [hfraction, hfront]
    have hzero : IsWhole ['0'] := ⟨allDigits_zeros 1, '0', [], rfl, fun _ => rfl⟩
    have hvalue : digitsValue (['0'] ++ fraction) = digitsValue kept :=
      (digitsValue_zeros_append 1 fraction).trans (digitsValue_zeros_append _ kept)
    have hlength : (-fraction.length : Int) = point - kept.length := by
      rw [hfraction, List.length_append, List.length_replicate]
      omega
    have hspelled := Spelled.positional hzero ((allDigits_zeros _).append h.digits) hne
    rw [pointed_of_ne hne] at hspelled
    exact ⟨_, _, hspelled, fun negative => by rw [hvalue, hlength]⟩
  · rename_i hpoint
    have hwhole : ∀ n, IsWhole (kept.take point.toNat ++ List.replicate n '0') := fun n =>
      (h.take (by omega)).isWhole_append (allDigits_zeros n)
    by_cases hlong : point.toNat < kept.length
    · -- The point falls among the digits.
      have hne : kept.drop point.toNat ≠ [] := by simpa using hlong
      have hempty : (kept.drop point.toNat).isEmpty = false := by simpa using hlong
      have hpad : point.toNat - kept.length = 0 := by omega
      have hvalue : digitsValue (kept.take point.toNat ++ List.replicate 0 '0' ++
          kept.drop point.toNat) = digitsValue kept := by
        rw [List.replicate_zero, List.append_nil, List.take_append_drop]
      have hlength : (-(kept.drop point.toNat).length : Int) = point - kept.length := by
        rw [List.length_drop]
        omega
      have hspelled := Spelled.positional (hwhole 0) (h.digits.of_sublist (List.drop_sublist _ _)) hne
      rw [pointed_of_ne hne] at hspelled
      dsimp only
      rw [hpad, hempty, if_neg Bool.false_ne_true]
      exact ⟨_, _, hspelled, fun negative => by rw [hvalue, hlength]⟩
    · -- The digits end before the point: zeros fill the gap, and one more follows the point.
      have htake : kept.take point.toNat = kept := List.take_of_length_le (by omega)
      have hdrop : kept.drop point.toNat = [] := List.drop_of_length_le (by omega)
      set n := point.toNat - kept.length with hn
      have hvalue : digitsValue (kept ++ List.replicate n '0' ++ ['0']) =
          digitsValue kept * 10 ^ (n + 1) := by
        rw [List.append_assoc, ← List.replicate_succ', digitsValue_append_zeros]
      have hexponent : (-((1 : Nat) : Int)) + (n + 1 : Nat) = point - kept.length := by omega
      have hspelled := Spelled.positional (hwhole n) (allDigits_zeros 1) (List.cons_ne_nil _ _)
      rw [htake] at hspelled
      dsimp only
      rw [htake, hdrop]
      refine ⟨_, _, hspelled, fun negative => ?_⟩
      rw [← hexponent, ← ofDecimal_mul_pow, ← hvalue]
      rfl

theorem spelled_scientific (style : Layout) {kept : List Char} (h : Kept kept) (point : Int) :
    Spelled (scientific style kept point) (digitsValue kept) (point - kept.length) := by
  obtain ⟨c, rest, rfl, hc⟩ := h.front
  have hwhole : IsWhole [c] := ⟨h.digits.of_sublist (by simp), c, [], rfl, fun _ => rfl⟩
  have hrest : AllDigits rest := h.digits.of_sublist (List.sublist_cons_self c rest)
  generalize hsize : (toString (point - 1).natAbs).toList = size
  have hdigits : AllDigits size := hsize ▸ allDigits_toString _
  set padded := List.replicate (style.exponentWidth - size.length) '0' ++ size with hpadded
  have hvalue : digitsValue padded = (point - 1).natAbs := by
    rw [hpadded, digitsValue_zeros_append, ← hsize, digitsValue_toString]
  have hne : padded ≠ [] := by
    obtain ⟨d, ds, hd, -⟩ := toString_front (point - 1).natAbs
    rw [hpadded, ← hsize, hd]
    exact List.append_ne_nil_of_right_ne_nil _ (List.cons_ne_nil _ _)
  have hspelled := Spelled.scientific (decide (point - 1 < 0)) hwhole hrest
    ((allDigits_zeros _).append hdigits) hne
  have hexponent : (if decide (point - 1 < 0) = true then -(digitsValue padded : Int)
      else digitsValue padded) - rest.length = point - (c :: rest).length := by
    rw [hvalue, List.length_cons]
    by_cases hnegative : point - 1 < 0
    · rw [if_pos (decide_eq_true hnegative)]
      omega
    · rw [if_neg (by simpa using hnegative)]
      omega
  rw [hexponent] at hspelled
  rw [scientific]
  simp only [hsize, ← hpadded]
  simpa [pointed] using hspelled

/-- However its digits are laid out, a decimal is spelled. -/
theorem exists_spelled (style : Layout) {d : Digits} (h : d.digits ≠ 0) :
    ∃ n e, Spelled (d.layout style) n e ∧ ∀ negative,
      ofDecimal negative n e = ofDecimal negative d.digits d.exponent := by
  obtain ⟨hkept, hvalue⟩ := significant_spec h
  rw [Digits.layout]
  dsimp only
  split
  · obtain ⟨n, e, hspelled, hread⟩ := spelled_positional hkept (significant d).2
    exact ⟨n, e, hspelled, fun negative => (hread negative).trans (hvalue negative).symm⟩
  · exact ⟨_, _, spelled_scientific style hkept _, fun negative => (hvalue negative).symm⟩

/-! ## Texts -/

/-- A minus sign in front of what is negative. -/
def signed (negative : Bool) (cs : List Char) : List Char := if negative then '-' :: cs else cs

theorem render_infinity (infinite notANumber : String) (negative : Bool) :
    (infinity negative).render infinite notANumber =
      if negative then "-" ++ infinite else infinite := by
  have hview : (infinity negative).view = .infinite negative := by
    cases negative <;> decide
  rw [render, hview]

/-- **The text of a finite number spells a decimal that is rounded to it.** -/
theorem exists_render (infinite notANumber : String) (negative : Bool) {magnitude : Nat}
    (h : magnitude < infinityBits) : ∃ cs n e,
      (ofMagnitude negative magnitude).render infinite notANumber =
        String.ofList (signed negative cs) ∧
      Spelled cs n e ∧ ofDecimal negative n e = ofMagnitude negative magnitude := by
  obtain ⟨m, q, hview, hmagnitude, hscaled⟩ := view_ofMagnitude negative h
  rw [render, hview]
  dsimp only
  rw [magnitude_of_ofMagnitude negative h.le]
  by_cases hzero : magnitude = 0
  · have hm : m = 0 := by omega
    rw [if_pos hm, hzero]
    have hone : IsWhole ['0'] := ⟨allDigits_zeros 1, '0', [], rfl, fun _ => rfl⟩
    exact ⟨_, _, _, rfl, .positional hone (allDigits_zeros 1) (List.cons_ne_nil _ _), if_pos rfl⟩
  · have hm := hscaled hzero
    have hdigits := ofDecimal_shortest negative h hm hmagnitude
    have hne : (shortest (ofMagnitude false magnitude) m q).digits ≠ 0 := by
      intro hnone
      rw [hnone, ofDecimal, if_pos rfl] at hdigits
      exact hzero (ofMagnitude_inj h.le (Nat.zero_le _) hdigits.symm)
    obtain ⟨n, e, hspelled, hread⟩ := exists_spelled plainLayout hne
    rw [if_neg hm.pos.ne']
    exact ⟨_, n, e, rfl, hspelled, (hread negative).trans hdigits⟩

end FileTags.Decimal
