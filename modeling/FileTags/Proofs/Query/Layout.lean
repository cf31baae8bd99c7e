import FileTags.Proofs.Query.Text
/-! # Characters laid out as tokens

The scanner decides at each character what comes next and how far it goes.  What it comes to can be
said the other way round, from the tokens to the characters (`Laid`): one token after another stands
there, with blanks before, between and after them, and no name is followed by a character that goes
on with it.

Characters are laid out in one way, as the tokens that they are scanned as (`laid_scan`,
`Laid.scan_eq`).  So what is to be known of the tokens of a text goes by the layout, with one case
for a blank and one for a token.

* A token stands where it says, and it can be written (`mem_scan`).
* Where characters are makes no difference to their symbols (`Laid.moved`).
* No name runs over from one part of a text into another that starts where names end, so the parts
  are laid out by themselves (`Laid.append`).
-/
namespace FileTags.Query

open Text (isBlank)

/-! ## Symbols that can be written -/

/-- A symbol that a text can hold: if it is a name, it is one that a query can name. -/
def Symbol.IsWritten : Symbol → Prop
  | .name tag => IsName tag
  | _ => True

theorem Symbol.isWritten_of_ofChar? {c : Char} {s : Symbol} (h : Symbol.ofChar? c = some s) :
    s.text.toList = [c] ∧ s.IsWritten := by
  unfold Symbol.ofChar? at h
  split at h <;> cases h <;> exact ⟨rfl, trivial⟩

theorem Symbol.IsWritten.text_ne_empty {s : Symbol} (h : s.IsWritten) : s.text ≠ "" := by
  cases s with
  | name tag => exact IsName.ne_empty h
  | opening | closing | both | either => decide

/-- The name that starts with a character which is neither blank nor special. -/
theorem isName_run {c : Char} (hspecial : Symbol.ofChar? c = none)
    (hblank : ¬ Text.isBlank c = true) (rest : List Char) :
    IsName (String.ofList (c :: rest.takeWhile isNameChar)) := by
  have hc : isNameChar c = true := by
    rw [isNameChar, isSpecial, hspecial, Bool.eq_false_iff.2 hblank]
    rfl
  have hall : (rest.takeWhile isNameChar).all isNameChar = true := List.all_takeWhile
  constructor
  · intro h
    have hnil := congrArg String.toList h
    rw [String.toList_ofList] at hnil
    exact List.cons_ne_nil _ _ hnil
  · rw [String.toList_ofList]
    exact List.forall_mem_cons.2 ⟨hc, List.all_eq_true.1 hall⟩

/-- A name goes on as far as there are characters of names. -/
theorem endsName_dropWhile (cs : List Char) : EndsName (cs.dropWhile isNameChar) := by
  intro c hc
  have hhead := List.head?_dropWhile_not isNameChar cs
  rw [Option.mem_def.1 hc] at hhead
  simpa using hhead

theorem EndsName.append {cs ds : List Char} (h : EndsName cs) (h' : EndsName ds) :
    EndsName (cs ++ ds) := by
  cases cs with
  | nil => exact h'
  | cons c cs => exact endsName_cons (h c rfl) (cs ++ ds)

theorem isBlank_special {c : Char} (h : isSpecial c = true) : isBlank c = false := by
  obtain ⟨s, hs⟩ := Option.isSome_iff_exists.1 h
  unfold Symbol.ofChar? at hs
  split at hs
  · rfl
  · rfl
  · rfl
  · rfl
  · cases hs

theorem scan_blank {c : Char} (h : isBlank c = true) (position : Nat) (cs : List Char) :
    scan position (c :: cs) = scan (position + 1) cs := by
  have hchar : Symbol.ofChar? c = none := by
    cases hs : Symbol.ofChar? c with
    | none => rfl
    | some s =>
      have hspecial : isSpecial c = true := by rw [isSpecial, hs]; rfl
      cases (isBlank_special hspecial).symm.trans h
  rw [scan, hchar]
  exact if_pos h

/-- What a symbol is scanned as does not depend on what comes after it. -/
theorem Symbol.IsWritten.scan_append {s : Symbol} (h : s.IsWritten) (position : Nat)
    {cs : List Char} (hcs : ∀ tag, s = .name tag → EndsName cs) :
    scan position (s.text.toList ++ cs) = ⟨s, position⟩ :: scan (position + s.text.length) cs := by
  cases s with
  | name tag =>
    rw [Symbol.text, IsName.scan_append h position (hcs tag rfl), String.length_toList]
  | opening | closing | both | either => exact scan_special rfl position cs

/-! ## Layouts -/

/-- **Characters from a position on are laid out as tokens**, with blanks before, between and after
them.  What comes after a name does not go on with it. -/
inductive Laid : Nat → List Char → List Token → Prop
  | nil (position : Nat) : Laid position [] []
  | blank {position : Nat} {c : Char} {cs : List Char} {ts : List Token} :
    isBlank c = true → Laid (position + 1) cs ts → Laid position (c :: cs) ts
  | token {position : Nat} {s : Symbol} {cs : List Char} {ts : List Token} :
    s.IsWritten → (∀ tag, s = .name tag → EndsName cs) → Laid (position + s.text.length) cs ts →
    Laid position (s.text.toList ++ cs) (⟨s, position⟩ :: ts)

/-- Characters are laid out as the tokens that they are scanned as. -/
theorem laid_scan (position : Nat) (cs : List Char) : Laid position cs (scan position cs) := by
  fun_induction scan position cs with
  | case1 position => exact .nil position
  | case2 position c rest s hs ih =>
    obtain ⟨htext, hwritten⟩ := Symbol.isWritten_of_ofChar? hs
    have hlength : s.text.length = 1 := by rw [← String.length_toList, htext]; rfl
    have hname : ∀ tag, s = .name tag → EndsName rest := by
      rintro tag rfl
      unfold Symbol.ofChar? at hs
      split at hs <;> cases hs
    rw [← hlength] at ih
    have htoken := Laid.token hwritten hname ih
    rwa [htext, hlength] at htoken
  | case3 position c rest hs hblank ih => exact .blank hblank ih
  | case4 position c rest hs hblank more ih =>
    have hname : IsName (String.ofList (c :: more)) := isName_run hs hblank rest
    have hlength : position + 1 + more.length =
        position + (Symbol.name (String.ofList (c :: more))).text.length := by
      rw [Symbol.text, String.length_ofList, List.length_cons]
      omega
    have hrest : (Symbol.name (String.ofList (c :: more))).text.toList ++
        rest.dropWhile isNameChar = c :: rest := by
      rw [Symbol.text, String.toList_ofList, List.cons_append, List.takeWhile_append_dropWhile]
    rw [hlength] at ih
    have htoken := Laid.token (s := .name _) hname (fun _ _ => endsName_dropWhile rest) ih
    rwa [hrest, ← hlength] at htoken

/-- A token stands among the characters from a position on. -/
def Token.StandsIn (t : Token) (position : Nat) (cs : List Char) : Prop :=
  ∃ before after, cs = before ++ (t.symbol.text.toList ++ after) ∧
    t.position = position + before.length

theorem Token.StandsIn.append {t : Token} {position : Nat} {rest : List Char} (passed : List Char)
    (h : t.StandsIn (position + passed.length) rest) : t.StandsIn position (passed ++ rest) := by
  obtain ⟨before, after, rfl, hposition⟩ := h
  refine ⟨passed ++ before, after, (List.append_assoc ..).symm, ?_⟩
  rw [hposition, List.length_append]
  omega

namespace Laid

variable {position : Nat} {cs ds : List Char} {ts us : List Token}

/-- **Characters are laid out in one way**, as the tokens that they are scanned as. -/
theorem scan_eq (h : Laid position cs ts) : scan position cs = ts := by
  induction h with
  | nil position => exact scan_nil position
  | blank hc _ ih => rw [scan_blank hc, ih]
  | token hs hname _ ih => rw [hs.scan_append _ hname, ih]

/-- A token stands where it says, with the characters of its symbol. -/
theorem stands (h : Laid position cs ts) {t : Token} (ht : t ∈ ts) :
    t.StandsIn position cs ∧ t.symbol.IsWritten := by
  induction h with
  | nil position => cases ht
  | @blank position c cs ts _ _ ih =>
    obtain ⟨hstands, hwritten⟩ := ih ht
    exact ⟨.append [c] hstands, hwritten⟩
  | @token position s cs ts hs _ _ ih =>
    rcases List.mem_cons.1 ht with rfl | ht
    · exact ⟨⟨[], cs, rfl, rfl⟩, hs⟩
    · obtain ⟨hstands, hwritten⟩ := ih ht
      rw [← String.length_toList] at hstands
      exact ⟨.append s.text.toList hstands, hwritten⟩

/-- Where characters stand makes no difference to their symbols. -/
theorem moved (h : Laid position cs ts) (other : Nat) :
    ∃ us, Laid other cs us ∧ us.map Token.symbol = ts.map Token.symbol := by
  induction h generalizing other with
  | nil position => exact ⟨[], .nil other, rfl⟩
  | blank hc _ ih =>
    obtain ⟨us, hus, hsymbols⟩ := ih (other + 1)
    exact ⟨us, .blank hc hus, hsymbols⟩
  | @token position s cs ts hs hname _ ih =>
    obtain ⟨us, hus, hsymbols⟩ := ih (other + s.text.length)
    exact ⟨⟨s, other⟩ :: us, .token hs hname hus, congrArg (s :: ·) hsymbols⟩

/-- **No name runs over the end of a text**, if what comes next starts where names end. -/
theorem append (h : Laid position cs ts) (hends : EndsName ds)
    (h' : Laid (position + cs.length) ds us) : Laid position (cs ++ ds) (ts ++ us) := by
  induction h with
  | nil position => exact h'
  | blank hc _ ih =>
    rw [List.length_cons, Nat.add_comm _ 1, ← Nat.add_assoc] at h'
    exact .blank hc (ih h')
  | token hs hname _ ih =>
    rw [List.length_append, String.length_toList, ← Nat.add_assoc] at h'
    rw [List.append_assoc]
    exact .token hs (fun tag htag => (hname tag htag).append hends) (ih h')

end Laid

/-- **A token stands where it says**, with the characters of its symbol. -/
theorem mem_scan {t : Token} {position : Nat} {cs : List Char} (h : t ∈ scan position cs) :
    t.StandsIn position cs ∧ t.symbol.IsWritten := (laid_scan position cs).stands h

end FileTags.Query
