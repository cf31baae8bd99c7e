import FileTags.Command.Answer
/-! # Tags between commas

A text that lists tags between commas is cut at the commas, and each piece is trimmed or, if it is
blank, dropped.  Since a cut more gives the pieces on its left and those on its right, the entries of
several texts are the entries of the texts joined by commas (`split_intercalate`), and a command that
is given its tags in several words might as well be given one.

Nothing is lost on the way.  An entry has neither a comma in it nor blanks at its ends (`IsEntry`), as
every tag without commas; and whatever blanks stand around the entries of a text and whatever blank
pieces between them (`Spaced`), the entries come out as they are (`split_spaced`).
-/
namespace FileTags

namespace Text

/-- A run of blanks, or nothing. -/
def Blanks (cs : List Char) : Prop := ∀ c ∈ cs, isBlank c = true

instance (cs : List Char) : Decidable (Blanks cs) :=
  decidable_of_iff (cs.all isBlank = true) List.all_eq_true

/-- **A text is trimmed**: it neither starts nor ends with a blank. -/
structure Trimmed (cs : List Char) : Prop where
  first : ∀ c ∈ cs.head?, isBlank c = false
  last : ∀ c ∈ cs.getLast?, isBlank c = false

theorem dropWhile_blanks {before : List Char} (h : Blanks before) (cs : List Char) :
    (before ++ cs).dropWhile isBlank = cs.dropWhile isBlank := by
  induction before with
  | nil => rfl
  | cons b before ih =>
    obtain ⟨hb, hrest⟩ := List.forall_mem_cons.1 h
    rw [List.cons_append, List.dropWhile_cons_of_pos hb, ih hrest]

theorem dropWhile_of_head? {cs : List Char} (h : ∀ c ∈ cs.head?, isBlank c = false) :
    cs.dropWhile isBlank = cs := by
  cases cs with
  | nil => rfl
  | cons c cs => exact List.dropWhile_cons_of_neg (by simp [h c rfl])

theorem trim_blanks {cs : List Char} (h : Blanks cs) : trim cs = [] := by
  have hall := dropWhile_blanks h []
  rw [List.append_nil, List.dropWhile_nil] at hall
  rw [trim, hall]
  rfl

/-- **Trimming takes off the blanks around a text that is trimmed.** -/
theorem trim_padded {before cs after : List Char} (hb : Blanks before) (hcs : Trimmed cs)
    (ha : Blanks after) : trim (before ++ cs ++ after) = cs := by
  rw [trim, List.append_assoc, dropWhile_blanks hb]
  cases cs with
  | nil =>
    have hall := dropWhile_blanks ha []
    rw [List.append_nil, List.dropWhile_nil] at hall
    rw [List.nil_append, hall]
    rfl
  | cons c cs =>
    have hback : Blanks after.reverse := fun d hd => ha d (List.mem_reverse.1 hd)
    have hfront : ((c :: cs) ++ after).dropWhile isBlank = (c :: cs) ++ after :=
      dropWhile_of_head? fun d hd => hcs.first d hd
    rw [hfront, List.reverse_append, dropWhile_blanks hback, dropWhile_of_head?,
      List.reverse_reverse]
    rw [List.head?_reverse]
    exact hcs.last

theorem head?_dropWhile_blank (cs : List Char) :
    ∀ c ∈ (cs.dropWhile isBlank).head?, isBlank c = false := by
  intro c hc
  have h := List.head?_dropWhile_not isBlank cs
  rw [hc] at h
  simpa using h

theorem trimmed_trim (cs : List Char) : Trimmed (trim cs) where
  first := by
    intro c hc
    -- What is first in the end was first when the blanks in front had been taken off.
    obtain ⟨rest, hrest⟩ := List.dropWhile_suffix isBlank (l := (cs.dropWhile isBlank).reverse)
    have hsplit : cs.dropWhile isBlank = trim cs ++ rest.reverse := by
      rw [trim, ← List.reverse_append, hrest, List.reverse_reverse]
    refine head?_dropWhile_blank cs c ?_
    rw [hsplit, List.head?_append, hc]
    rfl
  last := by
    intro c hc
    rw [trim, List.getLast?_reverse] at hc
    exact head?_dropWhile_blank _ c hc

theorem mem_of_mem_trim {c : Char} {cs : List Char} (h : c ∈ trim cs) : c ∈ cs := by
  have hback := (List.dropWhile_sublist isBlank).subset (List.mem_reverse.1 h)
  exact (List.dropWhile_sublist isBlank).subset (List.mem_reverse.1 hback)

end Text

namespace Tag

open Text (Blanks Trimmed)

/-! ## Texts side by side -/

/-- The entries among some pieces. -/
def entriesOf (parts : List (List Char)) : List String :=
  ((parts.map Text.trim).filter fun part => !part.isEmpty).map String.ofList

theorem split_eq (text : String) : split text = entriesOf (Text.pieces ',' text.toList) := rfl

theorem entriesOf_append (parts others : List (List Char)) :
    entriesOf (parts ++ others) = entriesOf parts ++ entriesOf others := by
  simp only [entriesOf, List.map_append, List.filter_append]

theorem split_append (s t : String) : split (s ++ "," ++ t) = split s ++ split t := by
  have hchars : (s ++ "," ++ t).toList = s.toList ++ ',' :: t.toList := by simp
  rw [split_eq, hchars, Text.pieces_append, entriesOf_append]
  rfl

/-- The entries of several texts are those of the texts joined by commas. -/
theorem split_intercalate (texts : List String) :
    split (",".intercalate texts) = texts.flatMap split := by
  induction texts with
  | nil => rfl
  | cons text texts ih =>
    cases texts with
    | nil => simp
    | cons next rest =>
      rw [String.intercalate_cons_cons, split_append, ih]
      rfl

/-- So tags in several words are tags in one. -/
theorem answer_tag_intercalate {σ : Type} (t : Tagger σ) (asData add : Bool) (id : String)
    (texts : List String) :
    Command.answer t asData (.tag id texts add) =
      Command.answer t asData (.tag id [",".intercalate texts] add) := by
  have hnames : [",".intercalate texts].flatMap split = texts.flatMap split := by
    rw [List.flatMap_singleton, split_intercalate]
  rw [Command.answer, Command.answer, hnames]

/-! ## Entries -/

/-- **An entry of a list**: a text with no comma in it, and no blank around it. -/
structure IsEntry (name : String) : Prop where
  ne_empty : name ≠ ""
  noComma : ',' ∉ name.toList
  trimmed : Trimmed name.toList

theorem isEntry_of_mem_split {text name : String} (h : name ∈ split text) : IsEntry name := by
  obtain ⟨cs, hcs, rfl⟩ := List.mem_map.1 h
  obtain ⟨hmem, hne⟩ := List.mem_filter.1 hcs
  obtain ⟨piece, hpiece, rfl⟩ := List.mem_map.1 hmem
  refine ⟨?_, ?_, ?_⟩
  · rw [ne_eq, String.ofList_eq_empty_iff]
    simpa using hne
  · rw [String.toList_ofList]
    exact fun hcomma => Text.notMem_of_mem_pieces hpiece (Text.mem_of_mem_trim hcomma)
  · rw [String.toList_ofList]
    exact Text.trimmed_trim piece

/-- A tag has no blank in it, so it is an entry if it has no comma. -/
theorem isEntry_of_isName {name : String} (h : isName name = true) (hcomma : ',' ∉ name.toList) :
    IsEntry name := by
  rw [isName, Bool.and_eq_true, Bool.and_eq_true] at h
  have hblank : ∀ c ∈ name.toList, Text.isBlank c = false := by
    intro c hc
    have hnot := List.any_eq_false.1 (Bool.not_eq_true' _ ▸ h.2) c hc
    rw [isForbidden, Bool.not_eq_true, Bool.or_eq_false_iff] at hnot
    exact hnot.1
  refine ⟨?_, hcomma, fun c hc => hblank c (List.mem_of_head? hc),
    fun c hc => hblank c (List.mem_of_getLast? hc)⟩
  rintro rfl
  exact Bool.false_ne_true h.1.1

/-! ## Blanks between entries -/

/-- **Parts that hold some names**: each name in a part of its own, with blanks around it, and blank
parts between. -/
inductive Spaced : List String → List String → Prop
  | nil : Spaced [] []
  | blank {part : String} {parts names : List String} :
    Blanks part.toList → Spaced parts names → Spaced (part :: parts) names
  | name {before name after : String} {parts names : List String} :
    Blanks before.toList → Blanks after.toList → Spaced parts names →
    Spaced ((before ++ name ++ after) :: parts) (name :: names)

theorem not_isBlank_comma : Text.isBlank ',' = false := by decide

theorem comma_notMem_blanks {cs : List Char} (h : Blanks cs) : ',' ∉ cs := fun hmem =>
  Bool.false_ne_true (not_isBlank_comma.symm.trans (h _ hmem))

variable {parts names : List String}

theorem Spaced.noComma (h : Spaced parts names) (hn : ∀ n ∈ names, IsEntry n) :
    ∀ part ∈ parts, ',' ∉ part.toList := by
  induction h with
  | nil => exact List.forall_mem_nil _
  | blank hblank _ ih => exact List.forall_mem_cons.2 ⟨comma_notMem_blanks hblank, ih hn⟩
  | name hbefore hafter _ ih =>
    obtain ⟨hname, hnames⟩ := List.forall_mem_cons.1 hn
    refine List.forall_mem_cons.2 ⟨?_, ih hnames⟩
    simp only [String.toList_append, List.mem_append, not_or]
    exact ⟨⟨comma_notMem_blanks hbefore, hname.noComma⟩, comma_notMem_blanks hafter⟩

theorem entriesOf_cons_blanks {part : List Char} (h : Blanks part) (parts : List (List Char)) :
    entriesOf (part :: parts) = entriesOf parts := by
  simp [entriesOf, Text.trim_blanks h]

theorem entriesOf_cons_padded {before after : List Char} {name : String} (hb : Blanks before)
    (hn : IsEntry name) (ha : Blanks after) (parts : List (List Char)) :
    entriesOf ((before ++ name.toList ++ after) :: parts) = name :: entriesOf parts := by
  have hne : (!name.toList.isEmpty) = true := by simpa using hn.ne_empty
  rw [entriesOf, List.map_cons, Text.trim_padded hb hn.trimmed ha,
    List.filter_cons_of_pos (p := fun part : List Char => !part.isEmpty) hne, List.map_cons,
    String.ofList_toList]
  rfl

theorem Spaced.entriesOf_eq (h : Spaced parts names) (hn : ∀ n ∈ names, IsEntry n) :
    entriesOf (parts.map String.toList) = names := by
  induction h with
  | nil => rfl
  | blank hblank _ ih =>
    rw [List.map_cons, entriesOf_cons_blanks hblank]
    exact ih hn
  | name hbefore hafter _ ih =>
    obtain ⟨hname, hnames⟩ := List.forall_mem_cons.1 hn
    rw [List.map_cons, String.toList_append, String.toList_append,
      entriesOf_cons_padded hbefore hname hafter, ih hnames]

/-- **Names come out of the parts that hold them.** -/
theorem split_spaced (h : Spaced parts names) (hn : ∀ n ∈ names, IsEntry n) :
    split (",".intercalate parts) = names := by
  cases hparts : parts with
  | nil =>
    subst hparts
    cases h
    rfl
  | cons part rest =>
    have hchars : (",".intercalate parts).toList = [','].intercalate (parts.map String.toList) :=
      String.toList_intercalate
    have hno : ∀ cs ∈ parts.map String.toList, ',' ∉ cs := by
      intro cs hcs
      obtain ⟨p, hp, rfl⟩ := List.mem_map.1 hcs
      exact h.noComma hn p hp
    have hne : parts.map String.toList ≠ [] := by simp [hparts]
    rw [← hparts, split_eq, hchars, Text.pieces_intercalate hne hno, h.entriesOf_eq hn]

/-! ## A comma and a blank -/

/-- Blanks in front of the first part are blanks in front of the whole. -/
theorem intercalate_lead (lead part : String) (parts : List String) :
    ",".intercalate ((lead ++ part) :: parts) = lead ++ ",".intercalate (part :: parts) := by
  cases parts with
  | nil => simp
  | cons next rest => simp only [String.intercalate_cons_cons, String.append_assoc]

/-- Between names stands a comma and a blank, or a comma, and each name but the first has a blank in
front. -/
theorem intercalate_comma_blank (name : String) (names : List String) :
    ", ".intercalate (name :: names) = ",".intercalate (name :: names.map (" " ++ ·)) := by
  induction names generalizing name with
  | nil => simp
  | cons next rest ih =>
    have hseparator : ", " = "," ++ " " := rfl
    rw [String.intercalate_cons_cons, ih, List.map_cons, String.intercalate_cons_cons,
      intercalate_lead, hseparator]
    simp only [String.append_assoc]

theorem blanks_empty : Blanks "".toList := fun _ h => nomatch h

theorem blanks_blank : Blanks " ".toList := by decide

theorem spaced_lead (names : List String) : Spaced (names.map (" " ++ ·)) names := by
  induction names with
  | nil => exact .nil
  | cons name names ih =>
    have hname : " " ++ name ++ "" = " " ++ name := String.append_empty
    have hspaced : Spaced ((" " ++ name ++ "") :: names.map (" " ++ ·)) (name :: names) :=
      .name blanks_blank blanks_empty ih
    rwa [hname] at hspaced

/-- **A list written with a comma and a blank between its entries is read back.** -/
theorem split_comma_blank (hn : ∀ n ∈ names, IsEntry n) : split (", ".intercalate names) = names := by
  cases names with
  | nil => rfl
  | cons name names =>
    have hname : "" ++ name ++ "" = name := by simp
    have hspaced : Spaced (("" ++ name ++ "") :: names.map (" " ++ ·)) (name :: names) :=
      .name blanks_empty blanks_empty (spaced_lead names)
    rw [hname] at hspaced
    rw [intercalate_comma_blank, split_spaced hspaced hn]

/-! ## Nothing is lost -/

/-- **Tags between commas are read without loss.**  Texts joined by commas have the entries of the
texts, and so a command does with them what it does with the texts one by one; each entry is not empty,
has no comma, and no blank around it; and tags without commas come out of every text that holds them,
whatever blanks are around them and whatever blank parts between, so reading what was read changes
nothing. -/
theorem splits_losslessly (s t text : String) (texts : List String) :
    split (s ++ "," ++ t) = split s ++ split t ∧
      texts.flatMap split = split (",".intercalate texts) ∧
      (∀ {σ : Type} (tagger : Tagger σ) (asData add : Bool) (id : String),
        Command.answer tagger asData (.tag id texts add) =
          Command.answer tagger asData (.tag id [",".intercalate texts] add)) ∧
      (∀ n ∈ split text, IsEntry n) ∧
      split (", ".intercalate (split text)) = split text ∧
      ∀ {names : List String}, (∀ n ∈ names, isName n = true ∧ ',' ∉ n.toList) →
        split (", ".intercalate names) = names ∧
          ∀ {parts : List String}, Spaced parts names → split (",".intercalate parts) = names := by
  have hread : ∀ n ∈ split text, IsEntry n := fun n hmem => isEntry_of_mem_split hmem
  refine ⟨split_append s t, (split_intercalate texts).symm,
    fun tagger asData add id => answer_tag_intercalate tagger asData add id texts, hread,
    split_comma_blank hread, fun {names} hn => ?_⟩
  have hentries : ∀ n ∈ names, IsEntry n := fun n hmem =>
    isEntry_of_isName (hn n hmem).1 (hn n hmem).2
  exact ⟨split_comma_blank hentries, fun hspaced => split_spaced hspaced hentries⟩

/-- Blanks of every kind go, and so do empty parts, wherever they stand. -/
theorem splits_losslessly_of_spaced :
    let names := ["a", "ü"]
    let parts := ["", " a\u3000", "\t \n", "ü", " "]
    (∀ n ∈ names, isName n = true ∧ ',' ∉ n.toList) ∧ Spaced parts names ∧
      split (",".intercalate parts) = names ∧
      split (", ".intercalate (split "x, y z ,,")) = split "x, y z ,," := by
  intro names parts
  have hn : ∀ n ∈ names, isName n = true ∧ ',' ∉ n.toList := by decide
  have hlast : Spaced ["" ++ "ü" ++ "", " "] ["ü"] :=
    .name blanks_empty blanks_empty (.blank blanks_blank .nil)
  have hfirst : Spaced [" " ++ "a" ++ "\u3000", "\t \n", "" ++ "ü" ++ "", " "] names :=
    .name blanks_blank (by decide) (.blank (by decide) hlast)
  have hspaced : Spaced parts names := .blank blanks_empty hfirst
  obtain ⟨-, -, -, -, hagain, hlists⟩ := splits_losslessly "" "" "x, y z ,," []
  exact ⟨hn, hspaced, (hlists hn).2 hspaced, hagain⟩

end Tag

end FileTags
