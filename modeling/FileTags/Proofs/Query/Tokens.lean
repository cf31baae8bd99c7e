import FileTags.Proofs.Query.Layout
import Mathlib
/-! # How a text is cut into tokens

A text has one segmentation into lexemes (`Segmentation`): they come in order and do not overlap,
each stands where it says, what is outside of them is blank, and names are maximal runs.  The tokens
of a query are that segmentation (`cut_one_way`).

* Two lexemes that share a character are the same (`Lexeme.CutFrom.eq_of_covers`).  A special
  character is a lexeme by itself, and of two runs that share a character neither can go on where
  the other ends.
* A lexeme starts with a character that is not blank, so every other segmentation has a lexeme
  there, and it is the same one.  Nothing has to be known about how the text is scanned.
* That the tokens are a segmentation goes by how they are laid out.  What is known of the characters
  that were passed is that no name runs from them into those that are left (`Parts`).

Scanning goes by the boundaries of names alone.  So the tokens can be written again with any blanks
between them, if names that stand side by side are kept apart (`exists_laid_spaced`).
-/
namespace FileTags.Query

open Text (isBlank)

/-! ## Lexemes -/

/-- A token as others see it: the name of its kind, its characters, and where they start. -/
@[ext] structure Lexeme where
  kind : String
  text : String
  position : Nat
  deriving DecidableEq, Repr

/-- How a token is seen. -/
def Token.lexeme (t : Token) : Lexeme := ⟨t.symbol.kind, t.symbol.text, t.position⟩

namespace Lexeme

/-- The position after the last character. -/
def stop (l : Lexeme) : Nat := l.position + l.text.length

/-- The character at a position belongs to a lexeme. -/
def Covers (l : Lexeme) (i : Nat) : Prop := l.position ≤ i ∧ i < l.stop

/-- **A lexeme is cut from some characters**: its text stands there at its position.  A special
character by itself is of its own kind; all else is a name, which is a run of characters of names
and goes on to neither side. -/
structure CutFrom (l : Lexeme) (cs : List Char) : Prop where
  slice : (cs.drop l.position).take l.text.length = l.text.toList
  kind : l.kind = if l.text ∈ ["(", ")", "&", "|"] then l.text else "tag"
  name : l.kind = "tag" → IsName l.text
  left : l.kind = "tag" → ∀ i c, i + 1 = l.position → cs[i]? = some c → isNameChar c = false
  right : l.kind = "tag" → ∀ c, cs[l.stop]? = some c → isNameChar c = false

end Lexeme

/-- **A segmentation of a query** into lexemes that are cut from it. -/
structure Segmentation (query : String) (ls : List Lexeme) : Prop where
  ordered : ls.Pairwise fun l k => l.position < k.position ∧ l.stop ≤ k.position
  cut : ∀ l ∈ ls, l.CutFrom query.toList
  outside : ∀ i c, query.toList[i]? = some c → (∀ l ∈ ls, ¬ l.Covers i) → isBlank c = true

/-! ## There is at most one segmentation -/

namespace Lexeme.CutFrom

variable {l k : Lexeme} {cs : List Char} {i : Nat}

/-- The characters of a lexeme are those at the positions that belong to it. -/
theorem exists_char (h : l.CutFrom cs) (hi : l.Covers i) :
    ∃ c ∈ l.text.toList, cs[i]? = some c := by
  obtain ⟨hfrom, hto⟩ := hi
  rw [stop] at hto
  obtain ⟨n, rfl⟩ := Nat.exists_eq_add_of_le hfrom
  have hn : n < l.text.length := by omega
  have hslice : cs[l.position + n]? = l.text.toList[n]? := by
    rw [← h.slice, List.getElem?_take, if_pos hn, List.getElem?_drop]
  have hchars : n < l.text.toList.length := by rwa [String.length_toList]
  have hchar : l.text.toList[n]? = some l.text.toList[n] := List.getElem?_eq_getElem hchars
  exact ⟨_, List.getElem_mem _, hslice.trans hchar⟩

theorem isNameChar_of_covers (h : l.CutFrom cs) (hkind : l.kind = "tag") (hi : l.Covers i) :
    ∃ c, cs[i]? = some c ∧ isNameChar c = true := by
  obtain ⟨c, hc, hat⟩ := h.exists_char hi
  exact ⟨c, hat, (h.name hkind).chars c hc⟩

/-- A lexeme that is no name is a special character. -/
theorem special_of_ne (h : l.CutFrom cs) (hkind : l.kind ≠ "tag") :
    l.kind = l.text ∧ ∃ c, l.text = String.singleton c ∧ isSpecial c = true := by
  have hmem : l.text ∈ ["(", ")", "&", "|"] := by
    by_contra hno
    exact hkind (h.kind.trans (if_neg hno))
  refine ⟨h.kind.trans (if_pos hmem), ?_⟩
  simp only [List.mem_cons, List.not_mem_nil, or_false] at hmem
  obtain hc | hc | hc | hc := hmem
  · exact ⟨'(', hc, rfl⟩
  · exact ⟨')', hc, rfl⟩
  · exact ⟨'&', hc, rfl⟩
  · exact ⟨'|', hc, rfl⟩

/-- A special character is a lexeme of its own. -/
theorem covers_special (h : l.CutFrom cs) (hkind : l.kind ≠ "tag") (hi : l.Covers i) :
    i = l.position ∧ ∃ c, cs[i]? = some c ∧ l.text = String.singleton c ∧ isSpecial c = true := by
  obtain ⟨-, c, htext, hc⟩ := h.special_of_ne hkind
  obtain ⟨d, hd, hat⟩ := h.exists_char hi
  obtain ⟨hfrom, hto⟩ := hi
  rw [stop, htext, String.length_singleton] at hto
  rw [htext, String.toList_singleton, List.mem_singleton] at hd
  exact ⟨by omega, c, hd ▸ hat, htext, hc⟩

/-- A lexeme is not empty, and it starts with a character that is not blank. -/
theorem covers_position (h : l.CutFrom cs) :
    l.Covers l.position ∧ ∃ c, cs[l.position]? = some c ∧ isBlank c = false := by
  have hcovers : l.Covers l.position := by
    have hlength : 0 < l.text.length := by
      rw [← String.length_toList, List.length_pos_iff, ne_eq, String.toList_eq_nil_iff]
      by_cases hkind : l.kind = "tag"
      · exact (h.name hkind).ne_empty
      · obtain ⟨-, c, htext, -⟩ := h.special_of_ne hkind
        rw [htext, ← String.toList_eq_nil_iff, String.toList_singleton]
        exact List.cons_ne_nil c []
    exact ⟨Nat.le_refl _, Nat.lt_add_of_pos_right hlength⟩
  refine ⟨hcovers, ?_⟩
  by_cases hkind : l.kind = "tag"
  · obtain ⟨c, hat, hc⟩ := h.isNameChar_of_covers hkind hcovers
    exact ⟨c, hat, by simpa using (Bool.and_eq_true_iff.1 hc).1⟩
  · obtain ⟨-, c, hat, -, hc⟩ := h.covers_special hkind hcovers
    exact ⟨c, hat, isBlank_special hc⟩

/-- Of two names that share a character, neither starts in the middle of the other. -/
theorem position_le (h : l.CutFrom cs) (h' : k.CutFrom cs) (hl : l.kind = "tag")
    (hk : k.kind = "tag") (hi : l.Covers i) (hi' : k.Covers i) : l.position ≤ k.position := by
  by_contra hlt
  obtain ⟨j, hj⟩ : ∃ j, j + 1 = l.position := ⟨l.position - 1, by omega⟩
  have hbefore : k.Covers j := ⟨by omega, by have := hi.1; have := hi'.2; omega⟩
  obtain ⟨c, hat, hc⟩ := h'.isNameChar_of_covers hk hbefore
  exact Bool.false_ne_true ((h.left hl j c hj hat).symm.trans hc)

/-- Nor does one of them end there. -/
theorem stop_le (h : l.CutFrom cs) (h' : k.CutFrom cs) (hl : l.kind = "tag") (hk : k.kind = "tag")
    (hi : l.Covers i) (hi' : k.Covers i) : k.stop ≤ l.stop := by
  by_contra hlt
  have hafter : k.Covers l.stop := ⟨by have := hi.2; have := hi'.1; omega, by omega⟩
  obtain ⟨c, hat, hc⟩ := h'.isNameChar_of_covers hk hafter
  exact Bool.false_ne_true ((h.right hl c hat).symm.trans hc)

/-- **Lexemes that share a character are the same.** -/
theorem eq_of_covers (h : l.CutFrom cs) (h' : k.CutFrom cs) (hi : l.Covers i) (hi' : k.Covers i) :
    l = k := by
  have hparts : l.kind = k.kind ∧ l.position = k.position ∧ l.text = k.text := by
    by_cases hl : l.kind = "tag" <;> by_cases hk : k.kind = "tag"
    · have hposition : l.position = k.position :=
        Nat.le_antisymm (h.position_le h' hl hk hi hi') (h'.position_le h hk hl hi' hi)
      have hstop : l.stop = k.stop :=
        Nat.le_antisymm (h'.stop_le h hk hl hi' hi) (h.stop_le h' hl hk hi hi')
      have hlength : l.text.length = k.text.length := by
        rw [stop, stop] at hstop
        omega
      refine ⟨hl.trans hk.symm, hposition, String.toList_inj.1 ?_⟩
      rw [← h.slice, ← h'.slice, hposition, hlength]
    · obtain ⟨c, hat, hc⟩ := h.isNameChar_of_covers hl hi
      obtain ⟨-, d, hat', -, hd⟩ := h'.covers_special hk hi'
      obtain rfl := Option.some.inj (hat.symm.trans hat')
      exact absurd hc (by simp [isNameChar, hd])
    · obtain ⟨c, hat, hc⟩ := h'.isNameChar_of_covers hk hi'
      obtain ⟨-, d, hat', -, hd⟩ := h.covers_special hl hi
      obtain rfl := Option.some.inj (hat.symm.trans hat')
      exact absurd hc (by simp [isNameChar, hd])
    · obtain ⟨hposition, c, hat, htext, -⟩ := h.covers_special hl hi
      obtain ⟨hposition', d, hat', htext', -⟩ := h'.covers_special hk hi'
      obtain rfl := Option.some.inj (hat.symm.trans hat')
      have hsame : l.text = k.text := htext.trans htext'.symm
      refine ⟨?_, hposition.symm.trans hposition', hsame⟩
      rw [(h.special_of_ne hl).1, (h'.special_of_ne hk).1, hsame]
  exact Lexeme.ext hparts.1 hparts.2.2 hparts.2.1

end Lexeme.CutFrom

namespace Segmentation

variable {query : String} {ls ks : List Lexeme}

/-- Where a lexeme starts every segmentation has one, and it is the same. -/
theorem subset (h : Segmentation query ls) (h' : Segmentation query ks) : ls ⊆ ks := by
  intro l hl
  obtain ⟨hcovers, c, hat, hc⟩ := (h.cut l hl).covers_position
  by_contra hno
  have hblank : isBlank c = true := by
    refine h'.outside l.position c hat fun k hk hcovers' => hno ?_
    rwa [(h.cut l hl).eq_of_covers (h'.cut k hk) hcovers hcovers']
  exact Bool.false_ne_true (hc.symm.trans hblank)

/-- **A query has at most one segmentation.** -/
theorem unique (h : Segmentation query ls) (h' : Segmentation query ks) : ls = ks := by
  let r : Lexeme → Lexeme → Prop := fun l k => l.position < k.position
  have : Std.Irrefl r := ⟨fun l => Nat.lt_irrefl _⟩
  have : Std.Antisymm r := ⟨fun l k hlk hkl => absurd hkl (Nat.lt_asymm hlk)⟩
  have hls : ls.Pairwise r := h.ordered.imp And.left
  have hks : ks.Pairwise r := h'.ordered.imp And.left
  exact List.Subset.antisymm_of_pairwise hls hks (h.subset h') (h'.subset h)

end Segmentation

/-! ## The tokens are a segmentation -/

namespace Laid

variable {position : Nat} {cs : List Char} {ts : List Token}

theorem position_le (h : Laid position cs ts) : ∀ t ∈ ts, position ≤ t.position := by
  induction h with
  | nil position => exact nofun
  | blank _ _ ih => exact fun t ht => Nat.le_of_succ_le (ih t ht)
  | token _ _ _ ih =>
    refine List.forall_mem_cons.2 ⟨Nat.le_refl _, fun t ht => ?_⟩
    exact Nat.le_trans (Nat.le_add_right _ _) (ih t ht)

theorem ordered (h : Laid position cs ts) : (ts.map Token.lexeme).Pairwise
    fun l k => l.position < k.position ∧ l.stop ≤ k.position := by
  induction h with
  | nil position => exact .nil
  | blank _ _ ih => exact ih
  | @token position s cs ts hs _ hrest ih =>
    refine .cons (List.forall_mem_map.2 fun t ht => ?_) ih
    have hafter : position + s.text.length ≤ t.position := hrest.position_le t ht
    have hlength : 0 < s.text.length := by
      rw [← String.length_toList, List.length_pos_iff, ne_eq, String.toList_eq_nil_iff]
      exact hs.text_ne_empty
    exact ⟨Nat.lt_of_lt_of_le (Nat.lt_add_of_pos_right hlength) hafter, hafter⟩

/-- A character that is not blank belongs to a token. -/
theorem exists_covers (h : Laid position cs ts) {i : Nat} {c : Char} (hat : cs[i]? = some c)
    (hc : isBlank c = false) : ∃ t ∈ ts, t.lexeme.Covers (position + i) := by
  induction h generalizing i with
  | nil position => cases hat
  | @blank position d cs ts hd _ ih =>
    cases i with
    | zero =>
      obtain rfl := Option.some.inj hat
      cases hd.symm.trans hc
    | succ i =>
      obtain ⟨t, ht, hcovers⟩ := ih hat
      exact ⟨t, ht, by rwa [Nat.add_assoc, Nat.add_comm 1] at hcovers⟩
  | @token position s cs ts _ _ _ ih =>
    by_cases hi : i < s.text.length
    · exact ⟨_, List.mem_cons_self, Nat.le_add_right _ _, Nat.add_lt_add_left hi _⟩
    · obtain ⟨j, rfl⟩ := Nat.exists_eq_add_of_le (Nat.le_of_not_lt hi)
      rw [← String.length_toList, List.getElem?_append_right (Nat.le_add_right _ _),
        Nat.add_sub_cancel_left] at hat
      obtain ⟨t, ht, hcovers⟩ := ih hat
      exact ⟨t, List.mem_cons_of_mem _ ht, by rwa [Nat.add_assoc] at hcovers⟩

end Laid

/-- Only names are of the kind of names. -/
theorem Symbol.exists_name {s : Symbol} (h : s.kind = "tag") : ∃ tag, s = .name tag := by
  cases s with
  | name tag => exact ⟨tag, rfl⟩
  | opening | closing | both | either => exact absurd h (by decide)

theorem Symbol.IsWritten.kind_eq {s : Symbol} (h : s.IsWritten) :
    s.kind = if s.text ∈ ["(", ")", "&", "|"] then s.text else "tag" := by
  cases s with
  | opening | closing | both | either => rfl
  | name tag =>
    refine (if_neg fun hspecial => ?_).symm
    -- None of the special characters is a character of names.
    have hnone : ∀ text ∈ ["(", ")", "&", "|"], ∃ c ∈ text.toList, isNameChar c = false := by
      simp only [List.forall_mem_cons]
      exact ⟨⟨'(', by decide⟩, ⟨')', by decide⟩, ⟨'&', by decide⟩, ⟨'|', by decide⟩, nofun⟩
    obtain ⟨c, hc, hno⟩ := hnone tag hspecial
    exact Bool.false_ne_true (hno.symm.trans (IsName.chars h c hc))

/-- A symbol that stands in a text is a lexeme of it, if it does not go on where it is a name. -/
theorem Symbol.IsWritten.cutFrom {s : Symbol} (hs : s.IsWritten) {before after : List Char}
    (hname : ∀ tag, s = .name tag → EndsName before.reverse ∧ EndsName after) :
    (Token.lexeme ⟨s, before.length⟩).CutFrom (before ++ (s.text.toList ++ after)) where
  slice := by
    show ((before ++ _).drop before.length).take s.text.length = s.text.toList
    rw [List.drop_left, ← String.length_toList, List.take_left]
  kind := hs.kind_eq
  name hkind := by
    obtain ⟨tag, rfl⟩ := Symbol.exists_name hkind
    exact hs
  left hkind i c hi hat := by
    obtain ⟨tag, htag⟩ := Symbol.exists_name hkind
    have hi : i + 1 = before.length := hi
    refine (hname tag htag).1 c ?_
    rw [List.getElem?_append_left (by omega)] at hat
    rwa [Option.mem_def, List.head?_reverse, List.getLast?_eq_getElem?, ← hi]
  right hkind c hat := by
    obtain ⟨tag, htag⟩ := Symbol.exists_name hkind
    have hat : (before ++ (s.text.toList ++ after))[before.length + s.text.length]? = some c := hat
    refine (hname tag htag).2 c ?_
    rw [← List.append_assoc, ← String.length_toList, ← List.length_append,
      List.getElem?_append_right (Nat.le_refl _), Nat.sub_self] at hat
    rwa [Option.mem_def, List.head?_eq_getElem?]

/-- No name is cut in two where some characters end and others begin. -/
def Parts (before cs : List Char) : Prop := EndsName before.reverse ∨ EndsName cs

theorem parts_concat (before : List Char) {c : Char} (h : isNameChar c = false) (cs : List Char) :
    Parts (before ++ [c]) cs := by
  left
  rw [List.reverse_append]
  exact endsName_cons h _

/-- **Laid out as tokens, characters are cut into them.** -/
theorem Laid.cutFrom {before cs : List Char} {ts : List Token} (h : Laid before.length cs ts)
    (hparts : Parts before cs) : ∀ t ∈ ts, t.lexeme.CutFrom (before ++ cs) := by
  generalize hposition : before.length = position at h
  induction h generalizing before with
  | nil position => exact nofun
  | @blank position c cs ts hc _ ih =>
    have hno : isNameChar c = false := by rw [isNameChar, hc]; rfl
    have hrest := @ih (before ++ [c]) (parts_concat before hno cs)
      (by rw [List.length_append, hposition]; rfl)
    rwa [List.append_assoc] at hrest
  | @token position s cs ts hs hname _ ih =>
    subst hposition
    refine List.forall_mem_cons.2 ⟨hs.cutFrom fun tag htag => ⟨?_, hname tag htag⟩, ?_⟩
    · subst htag
      -- A name starts with a character of names, so it is before it that a name must end.
      refine hparts.resolve_right fun hends => ?_
      obtain ⟨c, rest, hchars⟩ := List.exists_cons_of_ne_nil
        (mt String.toList_eq_nil_iff.1 (IsName.ne_empty hs))
      have hc : isNameChar c = true := IsName.chars hs c (hchars ▸ List.mem_cons_self)
      have hno : isNameChar c = false := hends c (by rw [Symbol.text, hchars]; rfl)
      exact Bool.false_ne_true (hno.symm.trans hc)
    · have hparts' : Parts (before ++ s.text.toList) cs := by
        cases s with
        | name tag => exact .inr (hname tag rfl)
        | opening | closing | both | either => exact parts_concat before rfl cs
      have hrest := ih hparts' (by rw [List.length_append, String.length_toList])
      rwa [List.append_assoc] at hrest

/-- The tokens of a query are its segmentation. -/
theorem segmentation_tokens (query : String) :
    Segmentation query ((tokens query).map Token.lexeme) := by
  have hlaid : Laid 0 query.toList (tokens query) := laid_scan 0 query.toList
  refine ⟨hlaid.ordered, List.forall_mem_map.2 ?_, fun i c hat hno => ?_⟩
  · have hcut : ∀ t ∈ tokens query, t.lexeme.CutFrom ([] ++ query.toList) :=
      Laid.cutFrom hlaid (.inl endsName_nil)
    exact hcut
  · by_contra hc
    obtain ⟨t, ht, hcovers⟩ := hlaid.exists_covers hat (Bool.eq_false_iff.2 hc)
    rw [Nat.zero_add] at hcovers
    exact hno _ (List.mem_map_of_mem ht) hcovers

/-! ## Other blanks between the same tokens -/

/-- Texts with gaps before the first, between them and after the last. -/
def spaced (gap : Nat → String) : List String → String
  | [] => gap 0
  | text :: texts => gap 0 ++ text ++ spaced (fun i => gap (i + 1)) texts

/-- Between two names there is a gap. -/
def KeepsApart (gap : Nat → String) (xs : List Symbol) : Prop :=
  ∀ i tag tag', xs[i]? = some (.name tag) → xs[i + 1]? = some (.name tag') → gap (i + 1) ≠ ""

/-- Blanks before characters only move them on. -/
theorem Laid.blanks {gap cs : List Char} {ts : List Token} (hgap : ∀ c ∈ gap, isBlank c = true)
    {position : Nat} (h : Laid (position + gap.length) cs ts) : Laid position (gap ++ cs) ts := by
  induction gap generalizing position with
  | nil => exact h
  | cons c gap ih =>
    obtain ⟨hc, hgap⟩ := List.forall_mem_cons.1 hgap
    refine .blank hc (ih hgap ?_)
    rwa [List.length_cons, Nat.add_comm gap.length, ← Nat.add_assoc] at h

section Spaced
variable {gap : Nat → String} (hgap : ∀ i, ∀ c ∈ (gap i).toList, isBlank c = true)
include hgap

/-- A name ends where gaps and symbols follow that keep it apart. -/
theorem endsName_spaced {xs : List Symbol} (hs : ∀ s ∈ xs, s.IsWritten)
    (hname : ∀ tag, xs[0]? = some (.name tag) → gap 0 ≠ "") :
    EndsName (spaced gap (xs.map Symbol.text)).toList := by
  have hblank : ∀ c cs rest, (gap 0).toList = c :: cs → EndsName (c :: cs ++ rest) := by
    intro c cs rest hchars
    have hc : isBlank c = true := hgap 0 c (hchars ▸ List.mem_cons_self)
    exact endsName_cons (by rw [isNameChar, hc]; rfl) _
  cases hchars : (gap 0).toList with
  | cons c cs =>
    cases xs with
    | nil =>
      rw [List.map_nil, spaced, hchars, ← List.append_nil (c :: cs)]
      exact hblank c cs [] hchars
    | cons s xs =>
      rw [List.map_cons, spaced, String.toList_append, String.toList_append, hchars,
        List.append_assoc]
      exact hblank c cs _ hchars
  | nil =>
    cases xs with
    | nil =>
      rw [List.map_nil, spaced, hchars]
      exact endsName_nil
    | cons s xs =>
      rw [List.map_cons, spaced, String.toList_append, String.toList_append, hchars,
        List.nil_append]
      cases s with
      | name tag => exact absurd (String.toList_eq_nil_iff.1 hchars) (hname tag rfl)
      | opening | closing | both | either => exact endsName_cons rfl _

/-- **Symbols are laid out with blanks between them.** -/
theorem exists_laid_spaced {xs : List Symbol} (hs : ∀ s ∈ xs, s.IsWritten)
    (hapart : KeepsApart gap xs) (position : Nat) :
    ∃ ts, Laid position (spaced gap (xs.map Symbol.text)).toList ts ∧ ts.map Token.symbol = xs := by
  induction xs generalizing gap position with
  | nil =>
    refine ⟨[], ?_, rfl⟩
    rw [List.map_nil, spaced, ← List.append_nil (gap 0).toList]
    exact .blanks (hgap 0) (.nil _)
  | cons s xs ih =>
    obtain ⟨hs, hxs⟩ := List.forall_mem_cons.1 hs
    have hgap' : ∀ i, ∀ c ∈ (gap (i + 1)).toList, isBlank c = true := fun i => hgap (i + 1)
    have hapart' : KeepsApart (fun i => gap (i + 1)) xs := fun i => hapart (i + 1)
    obtain ⟨ts, hlaid, hts⟩ :=
      ih hgap' hxs hapart' (position + (gap 0).toList.length + s.text.length)
    refine ⟨⟨s, position + (gap 0).toList.length⟩ :: ts, ?_, by rw [List.map_cons, hts]⟩
    rw [List.map_cons, spaced, String.toList_append, String.toList_append, List.append_assoc]
    refine .blanks (hgap 0) (.token hs (fun tag htag => ?_) hlaid)
    exact endsName_spaced hgap' hxs fun tag' => hapart 0 tag tag' (by rw [htag]; rfl)

end Spaced

/-- **A text is cut into tokens in one way.**  Its only segmentation are its tokens; and with other
blanks between them, as long as names are kept apart, these make a text with the same symbols. -/
theorem cut_one_way (query : String) :
    (∀ ls, Segmentation query ls ↔ ls = (tokens query).map Token.lexeme) ∧
      ∀ gap : Nat → String, (∀ i, ∀ c ∈ (gap i).toList, isBlank c = true) →
        KeepsApart gap ((tokens query).map Token.symbol) →
        (tokens (spaced gap (((tokens query).map Token.symbol).map Symbol.text))).map Token.symbol =
          (tokens query).map Token.symbol := by
  refine ⟨fun ls => ⟨fun h => h.unique (segmentation_tokens query), ?_⟩, fun gap hgap hapart => ?_⟩
  · rintro rfl
    exact segmentation_tokens query
  · have hwritten : ∀ s ∈ (tokens query).map Token.symbol, s.IsWritten :=
      List.forall_mem_map.2 fun t ht => (mem_scan ht).2
    obtain ⟨ts, hlaid, hts⟩ := exists_laid_spaced hgap hwritten hapart 0
    rw [tokens, hlaid.scan_eq, hts]

/-- A text with blanks in three places, of which only one is needed, and with other blanks in that
place alone. -/
theorem cut_one_way_of_tight :
    let query := " a  &(b c)"
    let symbols : List Symbol := [.name "a", .both, .opening, .name "b", .name "c", .closing]
    let gap : Nat → String := fun i => if i = 4 then "\t " else ""
    (∀ i, ∀ c ∈ (gap i).toList, isBlank c = true) ∧ KeepsApart gap symbols ∧
      Segmentation query [⟨"tag", "a", 1⟩, ⟨"&", "&", 4⟩, ⟨"(", "(", 5⟩, ⟨"tag", "b", 6⟩,
        ⟨"tag", "c", 8⟩, ⟨")", ")", 9⟩] ∧
      (tokens "a&(b\t c)").map Token.symbol = symbols := by
  intro query symbols gap
  have htokens : tokens query = [⟨.name "a", 1⟩, ⟨.both, 4⟩, ⟨.opening, 5⟩, ⟨.name "b", 6⟩,
      ⟨.name "c", 8⟩, ⟨.closing, 9⟩] := by cbv
  have hsymbols : (tokens query).map Token.symbol = symbols := by rw [htokens]; rfl
  have hgap : ∀ i, ∀ c ∈ (gap i).toList, isBlank c = true := by
    intro i
    by_cases hi : i = 4
    · rw [show gap i = "\t " from if_pos hi, show "\t ".toList = ['\t', ' '] by decide]
      exact List.forall_mem_cons.2 ⟨by decide, List.forall_mem_singleton.2 (by decide)⟩
    · rw [show gap i = "" from if_neg hi, String.toList_empty]
      exact fun c hc => absurd hc List.not_mem_nil
  have hapart : KeepsApart gap symbols := by
    -- Only the fourth symbol and the fifth are both names.
    intro i tag tag' h h'
    rcases i with _ | _ | _ | _ | _ | _ | i
    · cases h'
    · cases h
    · cases h
    · decide
    · cases h'
    · cases h
    · cases h
  obtain ⟨hcut, hrespaced⟩ := cut_one_way query
  have hagain := hrespaced gap hgap (hsymbols ▸ hapart)
  rw [hsymbols, show spaced gap (symbols.map Symbol.text) = "a&(b\t c)" by decide] at hagain
  exact ⟨hgap, hapart, (hcut _).2 (by rw [htokens]; rfl), hagain⟩

end FileTags.Query
