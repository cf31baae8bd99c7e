/-! # Numerals

Whole numbers as runs of digits.  Data texts may hold numbers of any size; beyond a limit on the
count of decimal digits they are refused, which is a fault of its own and not of the form.
-/
namespace FileTags

/-- What holds values inside a data text. -/
inductive Container where
  | list
  | table
  deriving DecidableEq, Repr

/-- What can be wrong with a data text. -/
inductive ReadFault where
  /-- The text is not of the form. -/
  | malformed
  /-- A whole number has more digits than are read. -/
  | tooManyDigits (count : Nat)
  /-- Lists and tables stand inside one another more deeply than is read; the one that is too deep,
  if the form of the text tells them apart. -/
  | tooDeep (container : Option Container)
  /-- A text in it has half of a pair of surrogates, for which no character stands. -/
  | halfPair
  deriving DecidableEq, Repr

namespace Decimal

/-- The most decimal digits of a whole number that are read. -/
def maxDigits : Nat := 4300

/-- The value of a run of decimal digits. -/
def digitsValue (cs : List Char) : Nat := cs.foldl (fun n c => 10 * n + (c.toNat - '0'.toNat)) 0

/-- The whole number of a run of decimal digits and a sign. -/
def wholeNumber (negative : Bool) (digits : List Char) : Except ReadFault Int :=
  if maxDigits < digits.length then .error (.tooManyDigits digits.length)
  else .ok (if negative then -(digitsValue digits : Int) else digitsValue digits)

end Decimal

end FileTags
