import FileTags.Decimal.Shortest
import Mathlib.Algebra.Order.Field.Power
import Mathlib.Data.Int.Log
import Mathlib.Data.Rat.Floor
import Mathlib.Tactic.FieldSimp
import Mathlib.Tactic.NormNum
import Mathlib.Tactic.Positivity
import Mathlib.Tactic.Ring
/-! # Rounding decimals

The number nearest to a decimal is found from whole numbers, a numerator and a denominator, that may
have any common factor.  What is found depends on their quotient alone (`ofRatio_congr`), because the
last bit that is kept is the whole part of its binary logarithm (`lastBit_eq`); and the two short cuts
for decimals of extreme size agree with it (`ofDecimal_eq_ofRatio`).  So zeros at the end of the digits
can be moved into the exponent and back (`ofDecimal_mul_pow`).

A quotient that is exactly a number is rounded to that number (`ofRatio_exact`).
-/
namespace FileTags.Decimal.Binary64

variable {num den num' den' : Nat}

/-! ## Powers on either side -/

/-- A power of either sign, by two whole powers. -/
theorem zpow_mul_pow {b : ℚ} (hb : b ≠ 0) (e : Int) : b ^ e * b ^ (-e).toNat = b ^ e.toNat := by
  rw [← zpow_natCast, ← zpow_natCast, ← zpow_add₀ hb]
  congr 1
  omega

theorem scaled_lt_iff (hden : 0 < den) (k : Nat) (e : Int) :
    num * 2 ^ (-e).toNat < k * (den * 2 ^ e.toNat) ↔ (num / den : ℚ) < k * (2 : ℚ) ^ e := by
  have hd : (0 : ℚ) < den := by exact_mod_cast hden
  have hp : (0 : ℚ) < 2 ^ (-e).toNat := by positivity
  have hright : (k : ℚ) * 2 ^ e * den * 2 ^ (-e).toNat = k * (den * 2 ^ e.toNat) := by
    rw [← zpow_mul_pow two_ne_zero e]
    ring
  rw [div_lt_iff₀ hd, ← mul_lt_mul_iff_left₀ hp, hright]
  exact_mod_cast Iff.rfl

/-! ## The last bit -/

theorem le_log_iff {r : ℚ} (h : 0 < r) (e : Int) : e ≤ Int.log 2 r ↔ (2 : ℚ) ^ e ≤ r := by
  simpa using (Int.zpow_le_iff_le_log (b := 2) (by decide) h (x := e)).symm

theorem log_lt_iff {r : ℚ} (h : 0 < r) (e : Int) : Int.log 2 r < e ↔ r < (2 : ℚ) ^ e := by
  simpa using (Int.lt_zpow_iff_log_lt (b := 2) (by decide) h (x := e)).symm

theorem log2_bounds {n : Nat} (h : 0 < n) :
    (2 : ℚ) ^ (n.log2 : Int) ≤ n ∧ (n : ℚ) < 2 ^ ((n.log2 : Int) + 1) := by
  have hlow := Nat.log2_self_le (Nat.pos_iff_ne_zero.1 h)
  have hhigh := Nat.lt_log2_self (n := n)
  constructor
  · rw [zpow_natCast]
    exact_mod_cast hlow
  · rw [← Nat.cast_succ, zpow_natCast]
    exact_mod_cast hhigh

/-- The quotient of two whole numbers lies between the powers that their sizes say. -/
theorem ratio_bounds (hnum : 0 < num) (hden : 0 < den) :
    (2 : ℚ) ^ ((num.log2 : Int) - den.log2 - 1) ≤ num / den ∧
      (num / den : ℚ) < 2 ^ ((num.log2 : Int) - den.log2 + 1) := by
  obtain ⟨hn, hn'⟩ := log2_bounds hnum
  obtain ⟨hd, hd'⟩ := log2_bounds hden
  have hpos : (0 : ℚ) < den := by exact_mod_cast hden
  constructor
  · rw [le_div_iff₀ hpos]
    calc (2 : ℚ) ^ ((num.log2 : Int) - den.log2 - 1) * den
        ≤ 2 ^ ((num.log2 : Int) - den.log2 - 1) * 2 ^ ((den.log2 : Int) + 1) := by gcongr
      _ = 2 ^ (num.log2 : Int) := by
        rw [← zpow_add₀ two_ne_zero]
        congr 1
        omega
      _ ≤ num := hn
  · rw [div_lt_iff₀ hpos]
    calc (num : ℚ) < 2 ^ ((num.log2 : Int) + 1) := hn'
      _ = 2 ^ ((num.log2 : Int) - den.log2 + 1) * 2 ^ (den.log2 : Int) := by
        rw [← zpow_add₀ two_ne_zero]
        congr 1
        omega
      _ ≤ 2 ^ ((num.log2 : Int) - den.log2 + 1) * den := by gcongr

/-- **The last bit that is kept is the fifty-second below the first**, or the least of all. -/
theorem lastBit_eq (hnum : 0 < num) (hden : 0 < den) :
    lastBit num den = max (Int.log 2 (num / den : ℚ) - 52) (-1074) := by
  obtain ⟨hlow, hhigh⟩ := ratio_bounds hnum hden
  have hpos : (0 : ℚ) < num / den := by
    have hn : (0 : ℚ) < num := by exact_mod_cast hnum
    have hd : (0 : ℚ) < den := by exact_mod_cast hden
    positivity
  have hleast := (le_log_iff hpos _).2 hlow
  have hmost := (log_lt_iff hpos _).2 hhigh
  set guess : Int := (num.log2 : Int) - den.log2 - 52 with hguess
  have htest : num * Nat.pow 2 (-guess).toNat < Nat.pow 2 52 * (den * Nat.pow 2 guess.toNat) ↔
      Int.log 2 (num / den : ℚ) < num.log2 - den.log2 := by
    have hbound : ((2 ^ 52 : Nat) : ℚ) * 2 ^ guess = 2 ^ ((num.log2 : Int) - den.log2) := by
      rw [Nat.cast_pow, Nat.cast_ofNat, ← zpow_natCast, ← zpow_add₀ two_ne_zero]
      congr 1
      omega
    refine (scaled_lt_iff hden (2 ^ 52) guess).trans ?_
    rw [hbound, log_lt_iff hpos]
  simp only [lastBit, ← hguess]
  by_cases h : Int.log 2 (num / den : ℚ) < num.log2 - den.log2
  · rw [if_pos (htest.2 h)]
    congr 1
    omega
  · rw [if_neg (mt htest.1 h)]
    congr 1
    omega

/-! ## Common factors -/

theorem roundDiv_mul (a b : Nat) {c : Nat} (hc : 0 < c) : roundDiv (a * c) (b * c) = roundDiv a b := by
  have hlow : 2 * (a % b * c) < b * c ↔ 2 * (a % b) < b := by
    rw [← Nat.mul_assoc, Nat.mul_lt_mul_right hc]
  have hhigh : b * c < 2 * (a % b * c) ↔ b < 2 * (a % b) := by
    rw [← Nat.mul_assoc, Nat.mul_lt_mul_right hc]
  simp only [roundDiv, Nat.mul_div_mul_right _ _ hc, Nat.mul_mod_mul_right, hlow, hhigh]

theorem roundDiv_congr {a b a' b' : Nat} (hb : 0 < b) (hb' : 0 < b') (h : a * b' = a' * b) :
    roundDiv a b = roundDiv a' b' := by
  rw [← roundDiv_mul a b hb', h, Nat.mul_comm b b', roundDiv_mul a' b' hb]

theorem roundDiv_mul_self (m : Nat) {b : Nat} (hb : 0 < b) : roundDiv (m * b) b = m := by
  simp [roundDiv, Nat.mul_div_cancel m hb, hb]

theorem div_le_roundDiv (a b : Nat) : a / b ≤ roundDiv a b := by
  simp only [roundDiv]
  split
  · exact Nat.le_refl _
  · split
    · exact Nat.le_succ _
    · exact Nat.le_add_right _ _

theorem roundScaled_congr (hden : 0 < den) (hden' : 0 < den') (h : num * den' = num' * den) (e : Int) :
    roundScaled num den e = roundScaled num' den' e := by
  have hpow : ∀ n, 0 < Nat.pow 2 n := fun n => Nat.pow_pos (by decide)
  refine roundDiv_congr (Nat.mul_pos hden (hpow _)) (Nat.mul_pos hden' (hpow _)) ?_
  calc num * Nat.pow 2 (-e).toNat * (den' * Nat.pow 2 e.toNat)
      = num * den' * (Nat.pow 2 (-e).toNat * Nat.pow 2 e.toNat) := by ring
    _ = num' * den * (Nat.pow 2 (-e).toNat * Nat.pow 2 e.toNat) := by rw [h]
    _ = num' * Nat.pow 2 (-e).toNat * (den * Nat.pow 2 e.toNat) := by ring

/-- **The nearest number depends on the quotient alone.** -/
theorem ofRatio_congr (negative : Bool) (hden : 0 < den) (hden' : 0 < den')
    (h : num * den' = num' * den) : ofRatio negative num den = ofRatio negative num' den' := by
  rcases Nat.eq_zero_or_pos num with rfl | hnum
  · have hzero : num' = 0 := by
      rw [Nat.zero_mul] at h
      exact (Nat.mul_eq_zero.1 h.symm).resolve_right (Nat.pos_iff_ne_zero.1 hden)
    rw [ofRatio, ofRatio, if_pos rfl, if_pos hzero]
  · have hnum' : 0 < num' := by
      refine Nat.pos_of_ne_zero ?_
      rintro rfl
      rw [Nat.zero_mul] at h
      exact absurd h (Nat.mul_pos hnum hden').ne'
    have hratio : (num / den : ℚ) = num' / den' := by
      have hd : (den : ℚ) ≠ 0 := by exact_mod_cast hden.ne'
      have hd' : (den' : ℚ) ≠ 0 := by exact_mod_cast hden'.ne'
      rw [div_eq_div_iff hd hd']
      exact_mod_cast h
    have hlast : lastBit num den = lastBit num' den' := by
      rw [lastBit_eq hnum hden, lastBit_eq hnum' hden', hratio]
    rw [ofRatio, ofRatio, if_neg hnum.ne', if_neg hnum'.ne', hlast]
    simp only [roundScaled_congr hden hden' h]

/-! ## Quotients that are numbers -/

/-- **Whole numbers that give a number** `m * 2 ^ q`: the first has fifty-three bits, or fewer if the
other is the least exponent. -/
structure Scaled (m : Nat) (q : Int) : Prop where
  pos : 0 < m
  lt : m < 2 ^ 53
  least : -1074 ≤ q
  full : 2 ^ 52 ≤ m ∨ q = -1074

theorem lastBit_exact {m : Nat} {q : Int} (hden : 0 < den) (hm : Scaled m q)
    (h : (num / den : ℚ) = m * 2 ^ q) (hnum : 0 < num) : lastBit num den = q := by
  have hmpos : (0 : ℚ) < m := by exact_mod_cast hm.pos
  have hpos : (0 : ℚ) < num / den := by
    rw [h]
    positivity
  have hupper : (num / den : ℚ) < (2 : ℚ) ^ (53 + q) := by
    have hlt : (m : ℚ) < 2 ^ (53 : Int) := by exact_mod_cast hm.lt
    rw [h, zpow_add₀ two_ne_zero]
    gcongr
  have hlog := (log_lt_iff hpos _).2 hupper
  have hleast := hm.least
  rw [lastBit_eq hnum hden]
  rcases hm.full with hfull | hq
  · have hlower : (2 : ℚ) ^ (52 + q) ≤ num / den := by
      have hle : (2 : ℚ) ^ (52 : Int) ≤ m := by exact_mod_cast hfull
      rw [h, zpow_add₀ two_ne_zero]
      gcongr
    have hlog' := (le_log_iff hpos _).2 hlower
    omega
  · omega

/-- **A quotient that is a number is rounded to it.** -/
theorem ofRatio_exact (negative : Bool) {m : Nat} {q : Int} (hden : 0 < den) (hm : Scaled m q)
    (h : num * 2 ^ (-q).toNat = m * (den * 2 ^ q.toNat)) :
    ofRatio negative num den =
      ofMagnitude negative (min (m + (q + 1074).toNat * 2 ^ 52) infinityBits) := by
  have hpow : ∀ n, 0 < 2 ^ n := fun n => Nat.pow_pos (by decide)
  have hnum : 0 < num := by
    refine Nat.pos_of_ne_zero ?_
    rintro rfl
    rw [Nat.zero_mul] at h
    exact absurd h.symm (Nat.mul_pos hm.pos (Nat.mul_pos hden (hpow _))).ne'
  have hratio : (num / den : ℚ) = m * 2 ^ q := by
    have hd : (den : ℚ) ≠ 0 := by exact_mod_cast hden.ne'
    have hp : (2 : ℚ) ^ (-q).toNat ≠ 0 := by positivity
    have hcast : (num : ℚ) * 2 ^ (-q).toNat = m * (den * 2 ^ q.toNat) := by exact_mod_cast h
    rw [div_eq_iff hd, ← mul_left_inj' hp, hcast, ← zpow_mul_pow two_ne_zero q]
    ring
  have hround : roundScaled num den q = m := by
    show roundDiv (num * 2 ^ (-q).toNat) (den * 2 ^ q.toNat) = m
    rw [h, roundDiv_mul_self m (Nat.mul_pos hden (hpow _))]
  rw [ofRatio, if_neg hnum.ne', lastBit_exact hden hm hratio hnum]
  simp only [hround]
  rfl

/-! ## Decimals of extreme size -/

theorem ofRatio_overflow (negative : Bool) (hden : 0 < den) (h : (2 : ℚ) ^ (1024 : Int) ≤ num / den) :
    ofRatio negative num den = infinity negative := by
  have hpos : (0 : ℚ) < num / den := lt_of_lt_of_le (by positivity) h
  have hnum : 0 < num := by
    refine Nat.pos_of_ne_zero ?_
    rintro rfl
    simp at hpos
  have hlog := (le_log_iff hpos _).2 h
  set e : Int := Int.log 2 (num / den : ℚ) - 52 with he
  have hlast : lastBit num den = e := by
    rw [lastBit_eq hnum hden]
    omega
  -- The bits that are kept are all fifty-three.
  have hkept : 2 ^ 52 ≤ roundScaled num den e := by
    have hself := (le_log_iff hpos _).1 (Int.le_refl (Int.log 2 (num / den : ℚ)))
    have hscaled : (2 ^ 52 : Nat) * (2 : ℚ) ^ e ≤ num / den := by
      have hexp : (2 ^ 52 : Nat) * (2 : ℚ) ^ e = 2 ^ Int.log 2 (num / den : ℚ) := by
        rw [Nat.cast_pow, Nat.cast_ofNat, ← zpow_natCast, ← zpow_add₀ two_ne_zero]
        congr 1
        omega
      rwa [hexp]
    have hle := not_lt.1 (mt (scaled_lt_iff hden (2 ^ 52) e).1 (not_lt.2 hscaled))
    have hpow : 0 < den * 2 ^ e.toNat := Nat.mul_pos hden (Nat.pow_pos (by decide))
    exact ((Nat.le_div_iff_mul_le hpow).2 hle).trans (div_le_roundDiv _ _)
  have hmagnitude : infinityBits ≤ roundScaled num den e + (e + 1074).toNat * Nat.pow 2 52 := by
    have hfirst : 2046 ≤ (e + 1074).toNat := by omega
    have hexponent : 2046 * Nat.pow 2 52 ≤ (e + 1074).toNat * Nat.pow 2 52 :=
      Nat.mul_le_mul_right _ hfirst
    have hall : infinityBits = 2 ^ 52 + 2046 * Nat.pow 2 52 := by decide
    omega
  rw [ofRatio, if_neg hnum.ne', hlast]
  simp only [Nat.min_eq_right hmagnitude]
  rfl

theorem roundScaled_eq_zero (hden : 0 < den) (n : Nat)
    (h : (num / den : ℚ) < (2 : ℚ) ^ (-(n + 1 : Int))) : roundScaled num den (-n) = 0 := by
  have hhalf : 2 * (num * 2 ^ n) < den := by
    have hratio : (num / den : ℚ) < (1 : Nat) * (2 : ℚ) ^ (-(n + 1 : Int)) := by simpa using h
    have hscaled := (scaled_lt_iff hden 1 _).2 hratio
    have hup : (-(-(n + 1 : Int))).toNat = n + 1 := by omega
    have hdown : (-(n + 1 : Int)).toNat = 0 := by omega
    rw [hup, hdown, Nat.pow_succ', Nat.mul_left_comm] at hscaled
    simpa using hscaled
  have hlt : num * 2 ^ n < den := by omega
  have hnone : (-(n : Int)).toNat = 0 := by omega
  simp [roundScaled, hnone, roundDiv, Nat.div_eq_of_lt hlt, Nat.mod_eq_of_lt hlt, hhalf]

theorem ofRatio_underflow (negative : Bool) (hden : 0 < den)
    (h : (num / den : ℚ) < (2 : ℚ) ^ (-1075 : Int)) :
    ofRatio negative num den = ofMagnitude negative 0 := by
  rcases Nat.eq_zero_or_pos num with rfl | hnum
  · rw [ofRatio, if_pos rfl]
  have hpos : (0 : ℚ) < num / den := by
    have hn : (0 : ℚ) < num := by exact_mod_cast hnum
    have hd : (0 : ℚ) < den := by exact_mod_cast hden
    positivity
  have hlog := (log_lt_iff hpos _).2 h
  have hlast : lastBit num den = -1074 := by
    rw [lastBit_eq hnum hden]
    omega
  have hround : roundScaled num den (-1074) = 0 := roundScaled_eq_zero hden 1074 h
  rw [ofRatio, if_neg hnum.ne', hlast]
  simp only [hround]
  rfl

/-- The quotient that a decimal is. -/
theorem decimal_ratio (digits : Nat) (exponent : Int) :
    ((digits * 10 ^ exponent.toNat : Nat) / (10 ^ (-exponent).toNat : Nat) : ℚ) =
      digits * 10 ^ exponent := by
  have hp : ((10 ^ (-exponent).toNat : Nat) : ℚ) ≠ 0 := by positivity
  rw [div_eq_iff hp]
  push_cast
  rw [← zpow_mul_pow (by norm_num) exponent]
  ring

theorem two_pow_le_ten_pow : (2 : ℚ) ^ (1024 : Int) ≤ 10 ^ (401 : Int) :=
  calc (2 : ℚ) ^ (1024 : Int) ≤ 2 ^ (3 * 401 : Int) :=
        zpow_le_zpow_right₀ (by norm_num) (by norm_num)
    _ = (2 ^ (3 : Int)) ^ (401 : Int) := zpow_mul 2 3 401
    _ ≤ 10 ^ (401 : Int) := zpow_le_zpow_left₀ (by norm_num) (by norm_num) (by norm_num)

theorem ten_pow_le_two_pow : (10 : ℚ) ^ (-400 : Int) ≤ 2 ^ (-1075 : Int) := by
  rw [zpow_neg, zpow_neg]
  refine inv_anti₀ (by positivity) ?_
  calc (2 : ℚ) ^ (1075 : Int) ≤ 2 ^ (3 * 400 : Int) :=
        zpow_le_zpow_right₀ (by norm_num) (by norm_num)
    _ = (2 ^ (3 : Int)) ^ (400 : Int) := zpow_mul 2 3 400
    _ ≤ 10 ^ (400 : Int) := zpow_le_zpow_left₀ (by norm_num) (by norm_num) (by norm_num)

/-- **The short cuts for decimals of extreme size change nothing.** -/
theorem ofDecimal_eq_ofRatio (negative : Bool) (digits : Nat) (exponent : Int) :
    ofDecimal negative digits exponent =
      ofRatio negative (digits * 10 ^ exponent.toNat) (10 ^ (-exponent).toNat) := by
  rw [ofDecimal]
  by_cases hzero : digits = 0
  · rw [if_pos hzero, hzero, Nat.zero_mul, ofRatio, if_pos rfl]
  rw [if_neg hzero]
  have hden : 0 < 10 ^ (-exponent).toNat := Nat.pow_pos (by decide)
  dsimp only
  split
  · rename_i hhuge
    refine (ofRatio_overflow negative hden ?_).symm
    rw [decimal_ratio]
    -- A number has at most four bits for each decimal digit.
    have hdigits : (10 : ℚ) ^ ((digits.log2 / 4 : Nat) : Int) ≤ digits := by
      have hpow : 10 ^ (digits.log2 / 4) ≤ digits :=
        calc 10 ^ (digits.log2 / 4) ≤ (2 ^ 4) ^ (digits.log2 / 4) :=
              Nat.pow_le_pow_left (by decide) _
          _ = 2 ^ (4 * (digits.log2 / 4)) := (Nat.pow_mul 2 4 _).symm
          _ ≤ 2 ^ digits.log2 := Nat.pow_le_pow_right (by decide) (Nat.mul_div_le _ _)
          _ ≤ digits := Nat.log2_self_le hzero
      rw [zpow_natCast]
      exact_mod_cast hpow
    calc (2 : ℚ) ^ (1024 : Int) ≤ 10 ^ (401 : Int) := two_pow_le_ten_pow
      _ ≤ 10 ^ (((digits.log2 / 4 : Nat) : Int) + exponent) := by
        refine zpow_le_zpow_right₀ (by norm_num) ?_
        push_cast
        omega
      _ = 10 ^ ((digits.log2 / 4 : Nat) : Int) * 10 ^ exponent := zpow_add₀ (by norm_num) _ _
      _ ≤ digits * 10 ^ exponent := by gcongr
  · split
    · rename_i htiny
      refine (ofRatio_underflow negative hden ?_).symm
      rw [decimal_ratio]
      have hdigits : (digits : ℚ) < 10 ^ ((digits.log2 : Int) + 1) := by
        have hpow : digits < 10 ^ (digits.log2 + 1) :=
          lt_of_lt_of_le Nat.lt_log2_self (Nat.pow_le_pow_left (by decide) _)
        rw [← Nat.cast_succ, zpow_natCast]
        exact_mod_cast hpow
      calc (digits : ℚ) * 10 ^ exponent < 10 ^ ((digits.log2 : Int) + 1) * 10 ^ exponent := by gcongr
        _ = 10 ^ ((digits.log2 : Int) + 1 + exponent) := (zpow_add₀ (by norm_num) _ _).symm
        _ ≤ 10 ^ (-400 : Int) := zpow_le_zpow_right₀ (by norm_num) (by omega)
        _ ≤ 2 ^ (-1075 : Int) := ten_pow_le_two_pow
    · rfl

/-- **Zeros at the end of the digits can be moved into the exponent.** -/
theorem ofDecimal_mul_pow (negative : Bool) (digits k : Nat) (exponent : Int) :
    ofDecimal negative (digits * 10 ^ k) exponent = ofDecimal negative digits (exponent + k) := by
  have hpow : ∀ n, 0 < 10 ^ n := fun n => Nat.pow_pos (by decide)
  rw [ofDecimal_eq_ofRatio, ofDecimal_eq_ofRatio]
  refine ofRatio_congr negative (hpow _) (hpow _) ?_
  have hexponents : k + exponent.toNat + (-(exponent + k)).toNat =
      (exponent + k).toNat + (-exponent).toNat := by omega
  calc digits * 10 ^ k * 10 ^ exponent.toNat * 10 ^ (-(exponent + k)).toNat
      = digits * 10 ^ (k + exponent.toNat + (-(exponent + k)).toNat) := by
        rw [Nat.pow_add, Nat.pow_add]
        ring
    _ = digits * 10 ^ (exponent + k).toNat * 10 ^ (-exponent).toNat := by
        rw [hexponents, Nat.pow_add]
        ring

end FileTags.Decimal.Binary64
