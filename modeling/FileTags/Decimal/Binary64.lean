/-! # Binary floating point numbers

A number of 64 bits: a sign, eleven bits of exponent and fifty-two of fraction.  A finite one is
`m * 2 ^ q` for whole `m` and `q`; this module reads `m` and `q` off the bits, rounds an exact
fraction to the nearest number, of two equally near the even one, and compares numbers exactly.
No machine arithmetic is involved, so every step can be reasoned about.
-/
namespace FileTags.Decimal

/-- A floating point number, given by its 64 bits. -/
structure Binary64 where
  bits : UInt64
  deriving DecidableEq, Repr

namespace Binary64

/-- What the bits of a number say. -/
inductive View where
  /-- The number `± m * 2 ^ q`. -/
  | finite (negative : Bool) (m : Nat) (q : Int)
  | infinite (negative : Bool)
  | notANumber
  deriving DecidableEq, Repr

/-- The bits of the positive infinity, which all larger magnitudes overflow to. -/
def infinityBits : Nat := 0x7FF * Nat.pow 2 52

/-- The number of a magnitude and a sign. -/
def ofMagnitude (negative : Bool) (magnitude : Nat) : Binary64 :=
  ⟨UInt64.ofNat (magnitude + if negative then Nat.pow 2 63 else 0)⟩

/-- The positive or the negative infinity. -/
def infinity (negative : Bool) : Binary64 := ofMagnitude negative infinityBits

/-- The value that is no number. -/
def nan : Binary64 := ⟨0x7FF8000000000000⟩

/-- Reads sign, exponent and fraction. -/
def view (x : Binary64) : View :=
  let negative := Nat.pow 2 63 ≤ x.bits.toNat
  let magnitude : Nat := x.bits.toNat % Nat.pow 2 63
  let exponent : Nat := magnitude / Nat.pow 2 52
  let fraction : Nat := magnitude % Nat.pow 2 52
  if exponent = 0x7FF then if fraction = 0 then .infinite negative else .notANumber
  else if exponent = 0 then .finite negative fraction (-1074)
  else .finite negative (Nat.pow 2 52 + fraction) ((exponent : Int) - 1075)

/-- The quotient of two naturals to the nearest natural; a half goes to the even neighbour. -/
def roundDiv (num den : Nat) : Nat :=
  let q := num / den
  let twice := 2 * (num % den)
  if twice < den then q else if den < twice then q + 1 else q + q % 2

/-- The quotient `num / den * 2 ^ (-e)`, rounded. -/
def roundScaled (num den : Nat) (e : Int) : Nat :=
  roundDiv (num * Nat.pow 2 (-e).toNat) (den * Nat.pow 2 e.toNat)

/-- The exponent of the last bit that a quotient of this size keeps: fifty-three bits are kept,
and fewer near zero. -/
def lastBit (num den : Nat) : Int :=
  let guess : Int := num.log2 - den.log2 - 52
  let e :=
    if num * Nat.pow 2 (-guess).toNat < Nat.pow 2 52 * (den * Nat.pow 2 guess.toNat) then guess - 1
    else guess
  max e (-1074)

/-- The number nearest to `num / den`. -/
def ofRatio (negative : Bool) (num den : Nat) : Binary64 :=
  if num = 0 then ofMagnitude negative 0
  else
    let e := lastBit num den
    let magnitude := roundScaled num den e + (e + 1074).toNat * Nat.pow 2 52
    ofMagnitude negative (min magnitude infinityBits)

/-- The number nearest to `digits * 10 ^ exponent`.  Magnitudes beyond all numbers, and below half
of the least one, are settled by the count of digits alone. -/
def ofDecimal (negative : Bool) (digits : Nat) (exponent : Int) : Binary64 :=
  if digits = 0 then ofMagnitude negative 0
  else
    let size := (digits.log2 : Int) / 4 + exponent
    if 400 < size then infinity negative
    else if (digits.log2 : Int) + exponent < -400 then ofMagnitude negative 0
    else ofRatio negative (digits * Nat.pow 10 exponent.toNat) (Nat.pow 10 (-exponent).toNat)

/-- The order of two finite values `± m * 2 ^ q`, by the sign of their exact difference. -/
def compareScaled (m : Int) (q : Int) (m' : Int) (q' : Int) : Ordering :=
  let low := min q q'
  compare (m * Nat.pow 2 (q - low).toNat) (m' * Nat.pow 2 (q' - low).toNat)

/-- The order of a number and a whole number; nothing if there is none. -/
def compareInt? (x : Binary64) (n : Int) : Option Ordering :=
  match x.view with
  | .finite negative m q => some (compareScaled (if negative then -m else m) q n 0)
  | .infinite negative => some (if negative then .lt else .gt)
  | .notANumber => none

/-- The order of two numbers; nothing if there is none. -/
def compare? (x y : Binary64) : Option Ordering :=
  match x.view, y.view with
  | .finite negative m q, .finite negative' m' q' =>
    some (compareScaled (if negative then -m else m) q (if negative' then -m' else m') q')
  | .notANumber, _ => none
  | _, .notANumber => none
  | .infinite negative, .infinite negative' =>
    some (if negative = negative' then .eq else if negative then .lt else .gt)
  | .infinite negative, .finite _ _ _ => some (if negative then .lt else .gt)
  | .finite _ _ _, .infinite negative => some (if negative then .gt else .lt)

/-- Whether a number is a zero, of either sign. -/
def isZero (x : Binary64) : Bool := x.bits.toNat % Nat.pow 2 63 = 0

end Binary64

end FileTags.Decimal
