import FileTags.Text.Hex
/-! # Hexadecimal digits that are read back

A digit has the value that it was written for, and so has a run of four: the characters that texts
escape by their number need no more.
-/
namespace FileTags.Text

theorem hexValue?_lowerDigits : ∀ d < 16, hexValue? (lowerDigits.getD d '0') = some d := by
  decide

/-- Four digits are enough for the unit of a control. -/
theorem hexNumber?_hexLower {n : Nat} (h : n < 0x10000) : hexNumber? (hexLower 4 n) = some n := by
  have hdigit : ∀ m, hexValue? (lowerDigits.getD (m % 16) '0') = some (m % 16) :=
    fun m => hexValue?_lowerDigits (m % 16) (Nat.mod_lt m (by decide))
  simp only [hexLower, hexWith, List.nil_append, List.cons_append, hexNumber?,
    List.foldlM_cons, List.foldlM_nil, hdigit, Option.map_some, Option.bind_eq_bind,
    Option.bind_some]
  refine congrArg some ?_
  omega

end FileTags.Text
