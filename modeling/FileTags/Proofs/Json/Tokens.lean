import FileTags.Json.Reader
import FileTags.Json.Writer
import FileTags.Proofs.Text.Hex
/-! # Writing and scanning

What is written is scanned as the tokens it is made of, whatever comes after it (`Spells`): the
blanks between members say nothing, brackets and separators are themselves, and between quotes each
character is one unit, however it is escaped (`spells_writeText`).  So the layout of a value makes no
difference to its tokens.  Numbers alone have no end of their own: they are scanned as themselves
before what cannot go on with them (`SpellsEnded`), as every separator and bracket cannot.
-/
namespace FileTags.Json

/-! ## Texts -/

/-- What a text between quotes is scanned as if one unit comes before what follows. -/
def withUnit (unit : Nat) (found : Option (List Nat × List Char)) :
    Option (List Nat × List Char) := found.map fun found => (unit :: found.1, found.2)

theorem scanUnits_letter {letter c : Char} (hu : letter ≠ 'u') (h : escaped? letter = some c)
    (cs : List Char) : scanUnits ('\\' :: letter :: cs) = withUnit c.toNat (scanUnits cs) := by
  rw [scanUnits, h]
  · cases scanUnits cs <;> rfl
  · intro _ _ _ _ _ heq
    exact absurd heq hu

theorem scanUnits_unitEscape {unit : Nat} (h : unit < 0x10000) (cs : List Char) :
    scanUnits (unitEscape unit ++ cs) = withUnit unit (scanUnits cs) := by
  have hunit := Text.hexNumber?_hexLower h
  -- The four digits stand one by one in the text.
  obtain ⟨a, b, c, d, hdigits⟩ : ∃ a b c d, Text.hexLower 4 unit = [a, b, c, d] :=
    ⟨_, _, _, _, rfl⟩
  rw [hdigits] at hunit
  rw [unitEscape, hdigits]
  show scanUnits ('\\' :: 'u' :: a :: b :: c :: d :: cs) = _
  rw [scanUnits, hunit]
  cases scanUnits cs <;> rfl

theorem scanUnits_plain {c : Char} (hquote : c ≠ '"') (hback : c ≠ '\\') (hlow : ¬ c.toNat < 0x20)
    (cs : List Char) : scanUnits (c :: cs) = withUnit c.toNat (scanUnits cs) := by
  have hcond : ¬ (decide (c.toNat < 0x20) || c == '\\') = true := by
    simp [hlow, hback]
  rw [scanUnits, if_neg hcond]
  · cases scanUnits cs <;> rfl
  · exact hquote
  · intro _ _ _ _ _ heq _
    exact absurd heq hback
  · intro _ _ heq
    exact absurd heq hback

/-- However a character is escaped, it is read as one unit. -/
theorem scanUnits_writeChar (c : Char) (cs : List Char) :
    scanUnits (writeChar false c ++ cs) = withUnit c.toNat (scanUnits cs) := by
  unfold writeChar
  split
  · rename_i h
    exact scanUnits_letter (by decide) (by rw [h]; rfl) cs
  split
  · rename_i h
    exact scanUnits_letter (by decide) (by rw [h]; rfl) cs
  split
  · rename_i h
    exact scanUnits_letter (by decide) (by rw [h]; rfl) cs
  split
  · rename_i h
    exact scanUnits_letter (by decide) (by rw [h]; rfl) cs
  split
  · rename_i h
    exact scanUnits_letter (by decide) (by rw [h]; rfl) cs
  split
  · rename_i h
    exact scanUnits_letter (by decide) (by rw [h]; rfl) cs
  split
  · rename_i h
    exact scanUnits_letter (by decide) (by rw [h]; rfl) cs
  split
  · rename_i hlow
    exact scanUnits_unitEscape (by omega) cs
  · rename_i hquote hback _ _ _ _ _ hlow
    exact scanUnits_plain hquote hback hlow cs

theorem scanUnits_flatMap (cs rest : List Char) :
    scanUnits (cs.flatMap (writeChar false) ++ '"' :: rest) = some (cs.map Char.toNat, rest) := by
  induction cs with
  | nil =>
    show scanUnits ('"' :: rest) = some ([], rest)
    rw [scanUnits]
  | cons c cs ih =>
    rw [List.flatMap_cons, List.append_assoc, scanUnits_writeChar, ih]
    rfl

/-- No character is a surrogate, so each stands for itself. -/
theorem joinUnits_map_toNat (cs : List Char) : joinUnits (cs.map Char.toNat) = some cs := by
  have hvalid : ∀ c : Char, ¬ (0xD800 ≤ c.toNat ∧ c.toNat < 0xE000) := by
    intro c
    have hc : c.toNat < 0xD800 ∨ (0xDFFF < c.toNat ∧ c.toNat < 0x110000) := c.valid
    omega
  have hunit : ∀ c : Char, joinUnits.unitChar? c.toNat = some c := by
    intro c
    rw [joinUnits.unitChar?, if_neg (hvalid c), Char.ofNat_toNat]
  induction cs with
  | nil => rfl
  | cons c cs ih =>
    cases cs with
    | nil =>
      show (joinUnits.unitChar? c.toNat).map ([·]) = some [c]
      rw [hunit]
      rfl
    | cons d ds =>
      have hnot : ¬ (0xD800 ≤ c.toNat ∧ c.toNat < 0xDC00 ∧ 0xDC00 ≤ d.toNat ∧ d.toNat < 0xE000) := by
        intro h
        exact hvalid c ⟨h.1, by omega⟩
      have hjoin : joinUnits ((c :: d :: ds).map Char.toNat) =
          (joinUnits.unitChar? c.toNat).bind fun c =>
            (joinUnits ((d :: ds).map Char.toNat)).map (c :: ·) := by
        show joinUnits (c.toNat :: d.toNat :: ds.map Char.toNat) = _
        rw [joinUnits, if_neg hnot]
        rfl
      rw [hjoin, hunit, ih]
      rfl

theorem textToken_map_toNat (cs : List Char) :
    textToken (cs.map Char.toNat) = .text (String.ofList cs) := by
  rw [textToken, joinUnits_map_toNat]

/-! ## Tokens -/

/-- **Some characters spell some tokens**, whatever follows. -/
def Spells (cs : List Char) (tokens : List Token) : Prop :=
  ∀ rest, Token.scan (cs ++ rest) = tokens ++ Token.scan rest

theorem spells_nil : Spells [] [] := fun _ => rfl

theorem Spells.append {cs ds : List Char} {ts us : List Token} (h : Spells cs ts)
    (h' : Spells ds us) : Spells (cs ++ ds) (ts ++ us) := by
  intro rest
  rw [List.append_assoc, h, h', List.append_assoc]

theorem Spells.cons {c : Char} {cs : List Char} {t : Token} {ts : List Token}
    (h : Spells [c] [t]) (h' : Spells cs ts) : Spells (c :: cs) (t :: ts) := h.append h'

theorem spells_blank {c : Char} (h : isGap c = true) : Spells [c] [] := by
  intro rest
  show Token.scan (c :: rest) = Token.scan rest
  rw [Token.scan, if_pos h]

theorem spells_token {c : Char} {t : Token} (hgap : isGap c = false)
    (h : ∀ rest, scanToken c rest = (t, rest)) : Spells [c] [t] := by
  intro rest
  show Token.scan (c :: rest) = t :: Token.scan rest
  rw [Token.scan, hgap, if_neg Bool.false_ne_true, h]

theorem spells_openList : Spells ['['] [.openList] := spells_token rfl fun _ => rfl

theorem spells_closeList : Spells [']'] [.closeList] := spells_token rfl fun _ => rfl

theorem spells_openTable : Spells ['\x7b'] [.openTable] := spells_token rfl fun _ => rfl

theorem spells_closeTable : Spells ['\x7d'] [.closeTable] := spells_token rfl fun _ => rfl

theorem spells_comma : Spells [','] [.comma] := spells_token rfl fun _ => rfl

theorem spells_colon : Spells [':'] [.colon] := spells_token rfl fun _ => rfl

/-- **A text that is written is scanned as that text.** -/
theorem spells_writeText (s : String) : Spells (writeText false s) [.text s] := by
  intro rest
  have hunits : scanUnits (s.toList.flatMap (writeChar false) ++ '"' :: rest) =
      some (s.toList.map Char.toNat, rest) := scanUnits_flatMap s.toList rest
  have htoken : scanToken '"' (s.toList.flatMap (writeChar false) ++ '"' :: rest) =
      (.text s, rest) := by
    rw [scanToken, hunits]
    dsimp only
    rw [textToken_map_toNat, String.ofList_toList]
  have hcs : writeText false s ++ rest =
      '"' :: (s.toList.flatMap (writeChar false) ++ '"' :: rest) := by
    rw [writeText, List.cons_append, List.cons_append, List.append_assoc]
    rfl
  have hgap : isGap '"' = false := rfl
  rw [hcs, Token.scan, hgap, if_neg Bool.false_ne_true, htoken]
  rfl

/-! ## Ends -/

/-- Whether a character cannot go on with a number. -/
def endsNumber (c : Char) : Bool := !c.isDigit && c != '.' && c != 'e' && c != 'E'

/-- No number goes on at the front of a text. -/
def Ended (cs : List Char) : Prop := ∀ c ∈ cs.head?, endsNumber c = true

theorem ended_nil : Ended [] := nofun

theorem ended_cons {c : Char} (h : endsNumber c = true) (cs : List Char) : Ended (c :: cs) := by
  rintro _ ⟨⟩
  exact h

/-- **Some characters spell some tokens**, before an end. -/
def SpellsEnded (cs : List Char) (tokens : List Token) : Prop :=
  ∀ rest, Ended rest → Token.scan (cs ++ rest) = tokens ++ Token.scan rest

theorem Spells.ended {cs : List Char} {ts : List Token} (h : Spells cs ts) : SpellsEnded cs ts :=
  fun rest _ => h rest

theorem Spells.appendEnded {cs ds : List Char} {ts us : List Token} (h : Spells cs ts)
    (h' : SpellsEnded ds us) : SpellsEnded (cs ++ ds) (ts ++ us) := by
  intro rest hrest
  rw [List.append_assoc, h, h' rest hrest, List.append_assoc]

/-- What starts with an end needs none after it. -/
theorem SpellsEnded.append {c : Char} {cs ds : List Char} {ts us : List Token}
    (h : SpellsEnded cs ts) (hc : endsNumber c = true) (h' : Spells (c :: ds) us) :
    Spells (cs ++ c :: ds) (ts ++ us) := by
  intro rest
  rw [List.append_assoc, h (c :: ds ++ rest) (ended_cons hc _), h', List.append_assoc]

end FileTags.Json
