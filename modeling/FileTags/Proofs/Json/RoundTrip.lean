import FileTags.Proofs.Entries
import FileTags.Proofs.Json.Tokens
/-! # Reading back what was written

A value comes back from its text (`ComesBack`) if its text spells tokens, at whatever depth it is
laid out, which the reader takes as that value (`Takes`).  Texts come back; lists of what comes back
come back, and tables too if no key comes twice.  Each list or table around a value takes one more
place on the reader's stack, so the height of a value is counted along, and the theorem for whole
texts (`read_write`) asks for one that the reader bears.
-/
namespace FileTags.Json

/-! ## Taking tokens -/

/-- A token that fits is taken, unless a value may come and the token is wrong as one. -/
theorem run_step {r next : Reader} {token : Token} (hs : r.step? token = some next)
    (hf : (if r.awaitsValue then r.valueFault? token else none) = none) (rest : List Token) :
    r.run (token :: rest) = next.run rest := by
  rw [Reader.run, hf, hs]

section Take
variable {stack : List Frame}

theorem run_text (s : String) (rest : List Token) :
    (⟨stack, .value⟩ : Reader).run (.text s :: rest) =
      (⟨stack, .after (.text s)⟩ : Reader).run rest := by
  refine run_step rfl ?_ rest
  show (if (⟨stack, .value⟩ : Reader).isFull then none else none) = none
  split <;> rfl

theorem run_plain (v : Value) (rest : List Token) :
    (⟨stack, .value⟩ : Reader).run (.plain v :: rest) =
      (⟨stack, .after v⟩ : Reader).run rest := by
  refine run_step rfl ?_ rest
  show (if (⟨stack, .value⟩ : Reader).isFull then none else none) = none
  split <;> rfl

/-- A list or a table can be opened while the stack is not full. -/
theorem run_opening {token : Token} {next : Reader} {c : Container}
    (hs : (⟨stack, .value⟩ : Reader).step? token = some next)
    (hopen : Reader.opened? token = some c) (h : stack.length < maxDepth) (rest : List Token) :
    (⟨stack, .value⟩ : Reader).run (token :: rest) = next.run rest := by
  have hfull : (⟨stack, .value⟩ : Reader).isFull = false := decide_eq_false (Nat.not_le_of_lt h)
  refine run_step hs ?_ rest
  cases token with
  | openList | openTable =>
    show (if (⟨stack, .value⟩ : Reader).isFull then _ else none) = none
    rw [hfull, if_neg Bool.false_ne_true]
  | _ => cases hopen

/-- A list that is not empty awaits its first item as it awaits any other. -/
theorem run_firstItem {token : Token} (h : token ≠ .closeList) (rest : List Token) :
    (⟨stack, .firstItem⟩ : Reader).run (token :: rest) =
      (⟨.list [] :: stack, .value⟩ : Reader).run (token :: rest) := by
  cases token with
  | closeList => exact absurd rfl h
  | _ => rfl

theorem run_emptyList (rest : List Token) :
    (⟨stack, .firstItem⟩ : Reader).run (.closeList :: rest) =
      (⟨stack, .after (.list [])⟩ : Reader).run rest := by
  refine run_step rfl ?_ rest
  show (if (⟨stack, .firstItem⟩ : Reader).isFull then none else none) = none
  split <;> rfl

end Take

/-- **The tokens are taken as one value**, by a reader that has room for so many lists and tables
inside one another. -/
structure Takes (tokens : List Token) (v : Value) (height : Nat) : Prop where
  starts : ∃ t ts, tokens = t :: ts ∧ t ≠ .closeList
  /-- Characters make all the texts. -/
  whole : tokens.any Token.isHalfPair = false
  run : ∀ (stack : List Frame) (rest : List Token), stack.length + height ≤ maxDepth →
    (⟨stack, .value⟩ : Reader).run (tokens ++ rest) = (⟨stack, .after v⟩ : Reader).run rest

theorem takes_text (s : String) : Takes [.text s] (.text s) 0 where
  starts := ⟨.text s, [], rfl, nofun⟩
  whole := rfl
  run _ rest _ := run_text s rest

theorem takes_plain (v : Value) : Takes [.plain v] v 0 where
  starts := ⟨.plain v, [], rfl, nofun⟩
  whole := rfl
  run _ rest _ := run_plain v rest

/-- Lists of tokens with a comma between every two of them. -/
def listed (tokens : List (List Token)) : List Token := List.intercalate [.comma] tokens

theorem listed_cons_cons (ts us : List Token) (rest : List (List Token)) :
    listed (ts :: us :: rest) = ts ++ .comma :: listed (us :: rest) := by
  simp [listed, List.intercalate]

theorem listed_singleton (ts : List Token) : listed [ts] = ts := by simp [listed, List.intercalate]

theorem exists_listed (t : Token) (ts : List Token) (tss : List (List Token)) (rest : List Token) :
    ∃ more, listed ((t :: ts) :: tss) ++ rest = t :: more := by
  cases tss with
  | nil =>
    rw [listed_singleton]
    exact ⟨ts ++ rest, rfl⟩
  | cons us uss =>
    rw [listed_cons_cons]
    exact ⟨_, rfl⟩

theorem any_listed {tokens : List (List Token)}
    (h : ∀ ts ∈ tokens, ts.any Token.isHalfPair = false) :
    (listed tokens).any Token.isHalfPair = false := by
  induction tokens with
  | nil => rfl
  | cons ts tss ih =>
    obtain ⟨hts, hrest⟩ := List.forall_mem_cons.1 h
    cases tss with
    | nil => rwa [listed_singleton]
    | cons us uss =>
      have hcomma : Token.isHalfPair .comma = false := rfl
      rw [listed_cons_cons, List.any_append, List.any_cons, hts, hcomma, ih hrest]
      rfl

/-- Each of the first list goes with one of the second. -/
theorem exists_of_forall₂ {α β : Type} {R : α → β → Prop} {as : List α} {bs : List β}
    (h : List.Forall₂ R as bs) {a : α} (ha : a ∈ as) : ∃ b ∈ bs, R a b := by
  induction h with
  | nil => cases ha
  | cons hab _ ih =>
    rcases List.mem_cons.1 ha with rfl | ha
    · exact ⟨_, List.mem_cons_self, hab⟩
    · obtain ⟨b, hb, hR⟩ := ih ha
      exact ⟨b, List.mem_cons_of_mem _ hb, hR⟩

/-- Of whatever the members are made, brackets around them are no texts. -/
theorem any_enclosed {opening closing : Token} (ho : opening.isHalfPair = false)
    (hc : closing.isHalfPair = false) {tokens : List (List Token)}
    (h : ∀ ts ∈ tokens, ts.any Token.isHalfPair = false) :
    (opening :: (listed tokens ++ [closing])).any Token.isHalfPair = false := by
  rw [List.any_cons, List.any_append, List.any_cons, ho, hc, any_listed h]
  rfl

/-- The items of a list are taken one by one. -/
theorem run_items {height : Nat} {tokens : List (List Token)} {items : List Value}
    (h : List.Forall₂ (fun ts v => Takes ts v height) tokens items) (hne : items ≠ [])
    {stack : List Frame} (hroom : stack.length + 1 + height ≤ maxDepth) (before : List Value)
    (rest : List Token) :
    (⟨.list before :: stack, .value⟩ : Reader).run (listed tokens ++ .closeList :: rest) =
      (⟨stack, .after (.list (before.reverse ++ items))⟩ : Reader).run rest := by
  induction h generalizing before with
  | nil => exact absurd rfl hne
  | @cons ts v tss vs hv hvs ih =>
    have hroom' : (Frame.list before :: stack).length + height ≤ maxDepth := hroom
    cases hvs with
    | nil =>
      have hclose : (⟨.list before :: stack, .after v⟩ : Reader).run (.closeList :: rest) =
          (⟨stack, .after (.list (v :: before).reverse)⟩ : Reader).run rest :=
        run_step rfl rfl rest
      rw [listed_singleton, hv.run _ _ hroom', hclose, List.reverse_cons]
    | cons hu hus =>
      have hcomma : ∀ more, (⟨.list before :: stack, .after v⟩ : Reader).run (.comma :: more) =
          (⟨.list (v :: before) :: stack, .value⟩ : Reader).run more := run_step rfl rfl
      rw [listed_cons_cons, List.append_assoc, hv.run _ _ hroom', List.cons_append, hcomma,
        ih (List.cons_ne_nil _ _), List.reverse_cons, List.append_assoc, List.singleton_append]

theorem takes_list {height : Nat} {tokens : List (List Token)} {items : List Value}
    (h : List.Forall₂ (fun ts v => Takes ts v height) tokens items) :
    Takes (.openList :: (listed tokens ++ [.closeList])) (.list items) (height + 1) where
  starts := ⟨.openList, _, rfl, nofun⟩
  whole := by
    refine any_enclosed rfl rfl fun ts hts => ?_
    obtain ⟨v, -, hv⟩ := exists_of_forall₂ h hts
    exact hv.whole
  run := by
    intro stack rest hroom
    have hopen : (⟨stack, .value⟩ : Reader).run
        (.openList :: ((listed tokens ++ [.closeList]) ++ rest)) =
        (⟨stack, .firstItem⟩ : Reader).run ((listed tokens ++ [.closeList]) ++ rest) :=
      run_opening rfl rfl (by omega) _
    rw [List.cons_append, hopen, List.append_assoc, List.singleton_append]
    cases h with
    | nil => exact run_emptyList rest
    | @cons ts v tss vs hv hvs =>
      obtain ⟨t, ts', rfl, ht⟩ := hv.starts
      obtain ⟨more, hmore⟩ := exists_listed t ts' tss (.closeList :: rest)
      rw [hmore, run_firstItem ht, ← hmore]
      exact run_items (.cons hv hvs) (List.cons_ne_nil _ _) (by omega) [] rest

/-! ## Tables -/

/-- The tokens of an entry: its key, a colon, and those of its value. -/
def TakesEntry (height : Nat) (tokens : List Token) (e : String × Value) : Prop :=
  ∃ ts, tokens = .text e.1 :: .colon :: ts ∧ Takes ts e.2 height

/-- The entries of a table are taken one by one. -/
theorem run_entries {height : Nat} {tokens : List (List Token)} {entries : List (String × Value)}
    (h : List.Forall₂ (TakesEntry height) tokens entries) (hne : entries ≠ [])
    {stack : List Frame} (hroom : stack.length + 1 + height ≤ maxDepth)
    (before : List (String × Value)) (rest : List Token) :
    (⟨stack, .key before⟩ : Reader).run (listed tokens ++ .closeTable :: rest) =
      (⟨stack, .after (Reader.tableOf (entries.reverse ++ before))⟩ : Reader).run rest := by
  induction h generalizing before with
  | nil => exact absurd rfl hne
  | @cons ts e tss es he hes ih =>
    obtain ⟨us, rfl, hvalue⟩ := he
    have hroom' : (Frame.table before e.1 :: stack).length + height ≤ maxDepth := hroom
    have hentry : ∀ more, (⟨stack, .key before⟩ : Reader).run (.text e.1 :: .colon :: (us ++ more)) =
        (⟨.table before e.1 :: stack, .after e.2⟩ : Reader).run more := by
      intro more
      have hkey : (⟨stack, .key before⟩ : Reader).run (.text e.1 :: .colon :: (us ++ more)) =
          (⟨stack, .colon before e.1⟩ : Reader).run (.colon :: (us ++ more)) := run_step rfl rfl _
      have hcolon : (⟨stack, .colon before e.1⟩ : Reader).run (.colon :: (us ++ more)) =
          (⟨.table before e.1 :: stack, .value⟩ : Reader).run (us ++ more) := run_step rfl rfl _
      rw [hkey, hcolon, hvalue.run _ _ hroom']
    cases hes with
    | nil =>
      have hclose : (⟨.table before e.1 :: stack, .after e.2⟩ : Reader).run (.closeTable :: rest) =
          (⟨stack, .after (Reader.tableOf ((e.1, e.2) :: before))⟩ : Reader).run rest :=
        run_step rfl rfl rest
      rw [listed_singleton]
      exact (hentry _).trans hclose
    | cons he' hes' =>
      have hcomma : ∀ more, (⟨.table before e.1 :: stack, .after e.2⟩ : Reader).run (.comma :: more) =
          (⟨stack, .key ((e.1, e.2) :: before)⟩ : Reader).run more := run_step rfl rfl
      rw [listed_cons_cons, List.append_assoc, List.cons_append]
      refine (hentry _).trans ?_
      rw [List.cons_append, hcomma, ih (List.cons_ne_nil _ _)]
      simp only [List.reverse_cons, List.append_assoc, List.cons_append, List.nil_append]

theorem takes_table {height : Nat} {tokens : List (List Token)} {entries : List (String × Value)}
    (hnodup : (entries.map Prod.fst).Nodup)
    (h : List.Forall₂ (TakesEntry height) tokens entries) :
    Takes (.openTable :: (listed tokens ++ [.closeTable])) (.table entries) (height + 1) where
  starts := ⟨.openTable, _, rfl, nofun⟩
  whole := by
    refine any_enclosed rfl rfl fun ts hts => ?_
    obtain ⟨e, -, us, rfl, hvalue⟩ := exists_of_forall₂ h hts
    exact hvalue.whole
  run := by
    intro stack rest hroom
    have hopen : (⟨stack, .value⟩ : Reader).run
        (.openTable :: ((listed tokens ++ [.closeTable]) ++ rest)) =
        (⟨stack, .firstKey []⟩ : Reader).run ((listed tokens ++ [.closeTable]) ++ rest) :=
      run_opening rfl rfl (by omega) _
    rw [List.cons_append, hopen, List.append_assoc, List.singleton_append]
    cases h with
    | nil => exact run_step rfl rfl rest
    | @cons ts e tss es he hes =>
      have hfirst : (⟨stack, .firstKey []⟩ : Reader).run (listed (ts :: tss) ++ .closeTable :: rest) =
          (⟨stack, .key []⟩ : Reader).run (listed (ts :: tss) ++ .closeTable :: rest) := by
        obtain ⟨us, rfl, -⟩ := he
        obtain ⟨more, hmore⟩ := exists_listed (.text e.1) (.colon :: us) tss (.closeTable :: rest)
        rw [hmore]
        rfl
      have hentries : (⟨stack, .key []⟩ : Reader).run (listed (ts :: tss) ++ .closeTable :: rest) =
          (⟨stack, .after (Reader.tableOf ((e :: es).reverse ++ []))⟩ : Reader).run rest :=
        run_entries (.cons he hes) (List.cons_ne_nil _ _) (by omega) [] rest
      rw [hfirst, hentries, Reader.tableOf, List.append_nil, List.reverse_reverse,
        Entries.ofPairs_of_nodup hnodup]

/-! ## Layout -/

section Layout
variable (style : Style)

theorem spells_gap (depth : Nat) : Spells (style.gap depth) [] := by
  have hblanks : ∀ n, Spells (List.replicate n ' ') [] := by
    intro n
    induction n with
    | zero => exact spells_nil
    | succ n ih => exact (spells_blank rfl).append ih
  rw [Style.gap]
  cases style.indent with
  | none => exact spells_nil
  | some width => exact (spells_blank rfl).append (hblanks _)

/-- A separator is no part of a number. -/
theorem spells_separator (depth : Nat) :
    ∃ blanks, style.separator depth = ',' :: blanks ∧ Spells (',' :: blanks) [.comma] := by
  rw [Style.separator]
  cases style.indent with
  | none => exact ⟨[' '], rfl, spells_comma.append (spells_blank rfl)⟩
  | some width => exact ⟨_, rfl, spells_comma.append (spells_gap style depth)⟩

theorem spells_members (depth : Nat) {members : List (List Char)} {tokens : List (List Token)}
    (h : List.Forall₂ SpellsEnded members tokens) :
    SpellsEnded (List.intercalate (style.separator depth) members) (listed tokens) := by
  induction h with
  | nil => exact spells_nil.ended
  | @cons cs ts css tss hcs hrest ih =>
    cases hrest with
    | nil =>
      have hone : List.intercalate (style.separator depth) [cs] = cs := by
        simp [List.intercalate]
      rw [hone, listed_singleton]
      exact hcs
    | @cons ds us dss uss hds hmore =>
      obtain ⟨blanks, hseparator, hcomma⟩ := spells_separator style depth
      have hmany : List.intercalate (style.separator depth) (cs :: ds :: dss) =
          cs ++ ',' :: blanks ++ List.intercalate (style.separator depth) (ds :: dss) := by
        rw [← hseparator]
        simp [List.intercalate]
      have htokens : listed (ts :: us :: uss) = ts ++ [.comma] ++ listed (us :: uss) := by
        rw [listed_cons_cons, List.append_assoc]
        rfl
      rw [hmany, htokens]
      exact (hcs.append rfl hcomma).appendEnded ih

/-- The members end where the line does, or at the closing bracket. -/
theorem spells_closing {closing : Char} {close : Token} (depth : Nat)
    (hend : endsNumber closing = true) (hc : Spells [closing] [close]) :
    ∃ c cs, style.gap depth ++ [closing] = c :: cs ∧ endsNumber c = true ∧
      Spells (c :: cs) [close] := by
  have hspells := (spells_gap style depth).append hc
  rw [Style.gap] at hspells ⊢
  cases hindent : style.indent with
  | none => exact ⟨closing, [], rfl, hend, hc⟩
  | some width =>
    rw [hindent] at hspells
    exact ⟨'\n', _, rfl, rfl, hspells⟩

theorem spells_enclose {opening closing : Char} {open' close : Token} (depth : Nat)
    (ho : Spells [opening] [open']) (hend : endsNumber closing = true)
    (hc : Spells [closing] [close]) {members : List (List Char)} {tokens : List (List Token)}
    (h : List.Forall₂ SpellsEnded members tokens) :
    Spells (style.enclose depth opening closing members) (open' :: (listed tokens ++ [close])) := by
  rw [Style.enclose]
  cases h with
  | nil => exact ho.cons hc
  | cons hcs hrest =>
    obtain ⟨c, cs, hclosing, hfirst, hlast⟩ := spells_closing style depth hend hc
    have hmembers := spells_members style (depth + 1) (.cons hcs hrest)
    have hfront := ho.append (spells_gap style (depth + 1))
    rw [if_neg (by simp), List.append_assoc, hclosing]
    exact (hfront.appendEnded hmembers).append hfirst hlast

end Layout

/-! ## Values -/

/-- **A value comes back from its text**, read where there is room for so many lists and tables
inside one another. -/
def ComesBack (style : Style) (height : Nat) (v : Value) : Prop :=
  ∀ depth, ∃ tokens, SpellsEnded (writeValue style depth v) tokens ∧ Takes tokens v height

section Values
variable {style : Style}

/-- Items that come back are written as members of which each is taken as its item. -/
theorem exists_items {height : Nat} (depth : Nat) {items : List Value}
    (h : ∀ v ∈ items, ComesBack style height v) :
    ∃ tokens, List.Forall₂ SpellsEnded (writeItems style depth items) tokens ∧
      List.Forall₂ (fun ts v => Takes ts v height) tokens items := by
  induction items with
  | nil => exact ⟨[], .nil, .nil⟩
  | cons v vs ih =>
    obtain ⟨hv, hvs⟩ := List.forall_mem_cons.1 h
    obtain ⟨ts, hspells, htakes⟩ := hv depth
    obtain ⟨tss, hspells', htakes'⟩ := ih hvs
    rw [writeItems]
    exact ⟨ts :: tss, .cons hspells hspells', .cons htakes htakes'⟩

theorem comesBack_list {height : Nat} {items : List Value}
    (h : ∀ v ∈ items, ComesBack style height v) : ComesBack style (height + 1) (.list items) := by
  intro depth
  obtain ⟨tokens, hspells, htakes⟩ := exists_items (depth + 1) h
  refine ⟨_, ?_, takes_list htakes⟩
  rw [writeValue]
  exact (spells_enclose style depth spells_openList rfl spells_closeList hspells).ended

variable (hstyle : style.asciiOnly = false)
include hstyle

theorem comesBack_text (s : String) : ComesBack style 0 (.text s) := by
  intro depth
  refine ⟨[.text s], ?_, takes_text s⟩
  rw [writeValue, hstyle]
  exact (spells_writeText s).ended

/-- The entries of a table likewise, each with its key in front. -/
theorem exists_entries {height : Nat} (depth : Nat) {entries : List (String × Value)}
    (h : ∀ e ∈ entries, ComesBack style height e.2) :
    ∃ tokens, List.Forall₂ SpellsEnded (writeEntries style depth entries) tokens ∧
      List.Forall₂ (TakesEntry height) tokens entries := by
  induction entries with
  | nil => exact ⟨[], .nil, .nil⟩
  | cons e rest ih =>
    obtain ⟨he, hrest⟩ := List.forall_mem_cons.1 h
    obtain ⟨ts, hspells, htakes⟩ := he depth
    obtain ⟨tss, hspells', htakes'⟩ := ih hrest
    have hkey : Spells (writeText style.asciiOnly e.1) [.text e.1] := by
      rw [hstyle]
      exact spells_writeText e.1
    have hblank : Spells [' '] [] := spells_blank rfl
    have hentry := (hkey.append (spells_colon.append hblank)).appendEnded hspells
    rw [List.append_assoc] at hentry
    rw [writeEntries]
    exact ⟨_, .cons hentry hspells', .cons ⟨ts, rfl, htakes⟩ htakes'⟩

theorem comesBack_table {height : Nat} {entries : List (String × Value)}
    (hnodup : (entries.map Prod.fst).Nodup) (h : ∀ e ∈ entries, ComesBack style height e.2) :
    ComesBack style (height + 1) (.table entries) := by
  intro depth
  obtain ⟨tokens, hspells, htakes⟩ := exists_entries hstyle (depth + 1) h
  refine ⟨_, ?_, takes_table hnodup htakes⟩
  rw [writeValue]
  exact (spells_enclose style depth spells_openTable rfl spells_closeTable hspells).ended

end Values

/-- A byte order mark starts no token. -/
theorem scanToken_mark (cs : List Char) : scanToken '\uFEFF' cs = (.fault .malformed, []) := by
  have hword : scanWord? ('\uFEFF' :: cs) = none := by
    simp [scanWord?, words, afterWord?]
  have hnumber : scanNumber? false ('\uFEFF' :: cs) = none := by
    rw [scanNumber?]
    · rfl
    · decide
  have hsign : ¬ '\uFEFF' = '-' := by decide
  simp only [scanToken, hword, if_neg hsign, hnumber]
  rfl

/-- **What comes back is read as it was written.** -/
theorem read_write {style : Style} {height : Nat} {v : Value} (h : ComesBack style height v)
    (hroom : height ≤ maxDepth) : read (write style v) = .ok v := by
  obtain ⟨tokens, hspells, htakes⟩ := h 0
  have hscan : Token.scan (writeValue style 0 v) = tokens := by
    have hall := hspells [] ended_nil
    rwa [List.append_nil, Token.scan, List.append_nil] at hall
  have hrun : ofTokens (Token.scan (writeValue style 0 v)) = .ok v := by
    have hall := htakes.run [] [] (by simpa using hroom)
    rw [List.append_nil] at hall
    rw [hscan, ofTokens, show Reader.start.run tokens = .ok v from hall, htakes.whole]
    rfl
  rw [read, write, String.toList_ofList]
  split
  · rename_i cs hcs
    -- A text with such a mark in front would not have been taken.
    have hgap : isGap '\uFEFF' = false := by decide
    rw [hcs, Token.scan, hgap, if_neg Bool.false_ne_true, scanToken_mark] at hrun
    cases hrun
  · exact hrun

end FileTags.Json
