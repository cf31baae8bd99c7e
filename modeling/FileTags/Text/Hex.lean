/-! # Hexadecimal digits

Digits in both directions: the digit characters of a number, padded to a width, and the value of
a digit character or of a run of them.
-/
namespace FileTags.Text

/-- The digits in increasing order, in lower case. -/
def lowerDigits : List Char :=
  ['0', '1', '2', '3', '4', '5', '6', '7', '8', '9', 'a', 'b', 'c', 'd', 'e', 'f']

/-- The digits in increasing order, in upper case. -/
def upperDigits : List Char :=
  ['0', '1', '2', '3', '4', '5', '6', '7', '8', '9', 'A', 'B', 'C', 'D', 'E', 'F']

/-- The last `width` hexadecimal digits of a number, written with the given digit characters. -/
def hexWith (digits : List Char) : Nat → Nat → List Char
  | 0, _ => []
  | width + 1, n => hexWith digits width (n / 16) ++ [digits.getD (n % 16) '0']

/-- The last `width` digits of `n` in lower case. -/
def hexLower (width n : Nat) : List Char := hexWith lowerDigits width n

/-- The last `width` digits of `n` in upper case. -/
def hexUpper (width n : Nat) : List Char := hexWith upperDigits width n

/-- The value of one hexadecimal digit, in either case. -/
def hexValue? (c : Char) : Option Nat :=
  if '0' ≤ c ∧ c ≤ '9' then some (c.toNat - '0'.toNat)
  else if 'a' ≤ c ∧ c ≤ 'f' then some (c.toNat - 'a'.toNat + 10)
  else if 'A' ≤ c ∧ c ≤ 'F' then some (c.toNat - 'A'.toNat + 10)
  else none

/-- The value of a run of hexadecimal digits; nothing if one of the characters is no digit. -/
def hexNumber? (cs : List Char) : Option Nat :=
  cs.foldlM (fun n c => (hexValue? c).map (16 * n + ·)) 0

@[simp] theorem length_hexWith (digits : List Char) (width n : Nat) :
    (hexWith digits width n).length = width := by
  induction width generalizing n with
  | zero => rfl
  | succ width ih => simp [hexWith, ih]

end FileTags.Text
