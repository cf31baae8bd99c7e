/-! # Terminal codes

A terminal code is an escape character, an opening bracket, any digits, semicolons and question
marks, and a letter; it moves the cursor or colors the text and shows nothing itself.  A text that
does not go to a terminal is written without them.
-/
namespace FileTags.Text

/-- What follows the rest of a code, after its bracket, if a code goes on here. -/
def afterCode? : List Char → Option (List Char)
  | [] => none
  | c :: rest =>
    if c.isAlpha then some rest
    else if c.isDigit || c = ';' || c = '?' then afterCode? rest
    else none

theorem suffix_of_afterCode? {cs rest : List Char} (h : afterCode? cs = some rest) :
    rest <:+ cs := by
  fun_induction afterCode? cs with
  | case1 => simp at h
  | case2 c tail _ =>
    obtain rfl := Option.some.inj h
    exact List.suffix_cons _ _
  | case3 c tail _ _ ih => exact (ih h).trans (List.suffix_cons _ _)
  | case4 => simp at h

/-- A text without the codes in it. -/
def withoutCodes (cs : List Char) : List Char :=
  match cs with
  | [] => []
  | '\x1b' :: '[' :: rest =>
    match h : afterCode? rest with
    | some after =>
      have : after.length ≤ rest.length := (suffix_of_afterCode? h).length_le
      withoutCodes after
    | none => '\x1b' :: withoutCodes ('[' :: rest)
  | c :: rest => c :: withoutCodes rest
termination_by cs.length
decreasing_by all_goals simp only [List.length_cons]; omega

end FileTags.Text
