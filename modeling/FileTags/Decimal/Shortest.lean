import FileTags.Decimal.Binary64
/-! # The shortest decimal that reads back

A number is written with the fewest digits that still round to it, and of several decimals of that
length with the nearest.  `shortest` finds those digits: for one digit, two digits, and so on, it
tries the two neighbours of the exact value on the decimal grid.  `render` lays them out.
-/
namespace FileTags.Decimal

/-- The decimal `digits * 10 ^ exponent`. -/
structure Digits where
  digits : Nat
  exponent : Int
  deriving DecidableEq, Repr

/-- The order of two exact values `a * 10 ^ i` and `m * 2 ^ q`. -/
def comparePowers (a : Nat) (i : Int) (m : Nat) (q : Int) : Ordering :=
  compare (a * Nat.pow 10 i.toNat * Nat.pow 2 (-q).toNat)
    (m * Nat.pow 2 q.toNat * Nat.pow 10 (-i).toNat)

/-- The least `k` with `m * 2 ^ q < 10 ^ k`, for `m` not zero: a guess from the binary size,
which is never too large, and at most two steps up. -/
def decimalSize (m : Nat) (q : Int) : Int :=
  let guess := ((m.log2 : Int) + q) * 30103 / 100000 - 1
  let up (k : Int) : Int := if comparePowers 1 k m q = .gt then k else k + 1
  up (up (up guess))

/-- The two neighbours of `m * 2 ^ q` on the grid of multiples of `10 ^ i`, and whether the lower
is the nearer; of two equally near, the even one is. -/
def neighbours (m : Nat) (q : Int) (i : Int) : Nat × Nat × Bool :=
  let num := m * Nat.pow 2 q.toNat * Nat.pow 10 (-i).toNat
  let den := Nat.pow 2 (-q).toNat * Nat.pow 10 i.toNat
  let low := num / den
  let twice := 2 * (num % den)
  (low, low + 1, twice < den || (twice == den && low % 2 == 0))

/-- The decimal on the grid of multiples of `10 ^ i` that reads back as `x`, the nearest if both
neighbours of `x` do. -/
def onGrid? (x : Binary64) (m : Nat) (q : Int) (i : Int) : Option Digits :=
  let (low, high, lowNearer) := neighbours m q i
  let readsBack (d : Nat) : Bool := Binary64.ofDecimal false d i == x
  match readsBack low, readsBack high with
  | true, true => some ⟨if lowNearer then low else high, i⟩
  | true, false => some ⟨low, i⟩
  | false, true => some ⟨high, i⟩
  | false, false => none

/-- The fewest digits that read back as the positive number `m * 2 ^ q`.  Seventeen always
suffice; the exact value stands in where the search ends without them. -/
def shortest (x : Binary64) (m : Nat) (q : Int) : Digits :=
  let size := decimalSize m q
  let found := (List.range 17).findSome? fun n => onGrid? x m q (size - (n + 1 : Nat))
  found.getD ⟨m * Nat.pow 2 q.toNat * Nat.pow 5 (-q).toNat, min q 0⟩

/-- How numbers are laid out: where positional notation ends, on either side. -/
structure Layout where
  /-- The point may stand after this many digits at most. -/
  largestPoint : Int
  /-- The point may stand before this many zeros and the digits at most, counted down from zero. -/
  smallestPoint : Int
  /-- The least number of digits of an exponent. -/
  exponentWidth : Nat

/-- Positional below ten to the sixteenth and from a ten-thousandth on; otherwise one digit before
the point and a signed exponent of at least two digits. -/
def plainLayout : Layout := ⟨16, -3, 2⟩

/-- The digits of a number without trailing zeros, and where the point stands relative to the
first of them. -/
def significant (d : Digits) : List Char × Int :=
  let digits := (toString d.digits).toList
  let kept := (digits.reverse.dropWhile (· == '0')).reverse
  (kept, digits.length + d.exponent)

/-- The digits with the point after `point` of them; a whole number keeps one zero after the
point. -/
def positional (digits : List Char) (point : Int) : List Char :=
  if point ≤ 0 then '0' :: '.' :: (List.replicate (-point).toNat '0' ++ digits)
  else
    let whole := digits.take point.toNat
    let padded := whole ++ List.replicate (point.toNat - digits.length) '0'
    let fraction := digits.drop point.toNat
    padded ++ '.' :: (if fraction.isEmpty then ['0'] else fraction)

/-- The digits with a point after the first, and the exponent of ten. -/
def scientific (style : Layout) (digits : List Char) (point : Int) : List Char :=
  let exponent := point - 1
  let size := (toString exponent.natAbs).toList
  let padded := List.replicate (style.exponentWidth - size.length) '0' ++ size
  let fraction := digits.drop 1
  digits.take 1 ++ (if fraction.isEmpty then [] else '.' :: fraction)
    ++ 'e' :: (if exponent < 0 then '-' else '+') :: padded

/-- Lays out digits by a style. -/
def Digits.layout (style : Layout) (d : Digits) : List Char :=
  let (digits, point) := significant d
  if style.smallestPoint ≤ point ∧ point ≤ style.largestPoint then positional digits point
  else scientific style digits point

/-- The text of a number, with the given names for the values that have no digits. -/
def Binary64.render (infinite notANumber : String) (x : Binary64) : String :=
  match x.view with
  | .notANumber => notANumber
  | .infinite negative => if negative then "-" ++ infinite else infinite
  | .finite negative m q =>
    let body := if m = 0 then ['0', '.', '0']
      else (shortest (Binary64.ofMagnitude false (x.bits.toNat % Nat.pow 2 63)) m q).layout plainLayout
    String.ofList (if negative then '-' :: body else body)

/-- The text of a number as messages show it. -/
def Binary64.toText (x : Binary64) : String := x.render "inf" "nan"

end FileTags.Decimal
