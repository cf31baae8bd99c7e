import FileTags.Proofs.Toml.Rest
/-! # How values of a configuration are read

What one step of reading comes to is said once for values (`ValueRead`), once for the items of a list
(`ItemsRead`) and once for the entries of a table (`FieldsRead`): the steps after it, and where in the text
they go on.  By induction on the steps, what is read leaves an end of the text (`read_suffix`), and what is
too deep stands behind as many brackets and braces as use up the room (`openings_of_tooDeep`).
-/
namespace FileTags.Toml

variable {fuel room : Nat} {cs after rest : List Char} {v : Value} {done : List Value}
  {entries : Fields} {closed : List Key} {fault : ReadFault}

/-- Whether a character opens a list or a table, unless it stands in a text. -/
def opensAny (c : Char) : Bool := c = '[' || c = '\x7b'

/-! ## Steps -/

/-- **What reading a value comes to.** -/
inductive ValueRead (fuel room : Nat) : List Char → Except ReadFault (Value × List Char) → Prop where
  | malformed {cs : List Char} : ValueRead fuel room cs (.error .malformed)
  /-- There is no room for the list or table. -/
  | full {c : Char} {inner : List Char} {container : Container} {fault : ReadFault}
      (opens : opensAny c = true) (full : roomFor container room = .error fault) :
      ValueRead fuel room (c :: inner) (.error fault)
  | emptyList {inner rest : List Char} (left : rest <:+ inner) :
      ValueRead fuel room ('[' :: inner) (.ok (.list [], rest))
  | list {inner after : List Char} {less : Nat} (room_left : roomFor .list room = .ok less)
      (left : after <:+ inner) : ValueRead fuel room ('[' :: inner) (items fuel less [] after)
  | emptyTable {inner rest : List Char} (left : rest <:+ inner) :
      ValueRead fuel room ('\x7b' :: inner) (.ok (.table [], rest))
  | table {inner after : List Char} {less : Nat} (room_left : roomFor .table room = .ok less)
      (left : after <:+ inner) : ValueRead fuel room ('\x7b' :: inner) (fields fuel less [] [] after)
  | plain {cs : List Char} : ValueRead fuel room cs (plain cs)

theorem valueRead (fuel room : Nat) (cs : List Char) :
    ValueRead fuel room cs (value (fuel + 1) room cs) := by
  rw [value.eq_def]
  dsimp only
  split
  · rename_i inner
    cases hroom : roomFor .list room with
    | error fault => exact .full rfl hroom
    | ok less =>
      dsimp only [bind, Except.bind]
      split
      · rename_i hgaps
        exact .emptyList ((List.suffix_cons _ _).trans (skipGaps_suffix hgaps))
      · rename_i hgaps
        exact .list hroom (skipGaps_suffix hgaps)
      · exact .malformed
  · rename_i inner
    cases hroom : roomFor .table room with
    | error fault => exact .full rfl hroom
    | ok less =>
      dsimp only [bind, Except.bind]
      have hspace := List.dropWhile_suffix isSpace (l := inner)
      split
      · rename_i hclose
        rw [hclose] at hspace
        exact .emptyTable ((List.suffix_cons _ _).trans hspace)
      · exact .table hroom hspace
  · exact .plain

/-- **What reading items comes to**, after those already read. -/
inductive ItemsRead (fuel room : Nat) (done : List Value) (cs : List Char) :
    Except ReadFault (Value × List Char) → Prop where
  | malformed : ItemsRead fuel room done cs (.error .malformed)
  | fault {fault : ReadFault} (item : value fuel room cs = .error fault) :
      ItemsRead fuel room done cs (.error fault)
  | last {v : Value} {after rest : List Char} (item : value fuel room cs = .ok (v, after))
      (left : rest <:+ after) : ItemsRead fuel room done cs (.ok (.list (done ++ [v]), rest))
  | more {v : Value} {after rest : List Char} (item : value fuel room cs = .ok (v, after))
      (left : rest <:+ after) : ItemsRead fuel room done cs (items fuel room (done ++ [v]) rest)

theorem itemsRead (fuel room : Nat) (done : List Value) (cs : List Char) :
    ItemsRead fuel room done cs (items (fuel + 1) room done cs) := by
  rw [items.eq_def]
  dsimp only
  cases hitem : value fuel room cs with
  | error fault => exact .fault hitem
  | ok found =>
    obtain ⟨v, after⟩ := found
    dsimp only [bind, Except.bind]
    split
    · rename_i hgaps
      exact .last hitem ((List.suffix_cons _ _).trans (skipGaps_suffix hgaps))
    · rename_i hgaps
      have hcomma := (List.suffix_cons _ _).trans (skipGaps_suffix hgaps)
      split
      · rename_i hclose
        exact .last hitem (((List.suffix_cons _ _).trans (skipGaps_suffix hclose)).trans hcomma)
      · rename_i hnext
        exact .more hitem ((skipGaps_suffix hnext).trans hcomma)
      · exact .malformed
    · exact .malformed

/-- **What reading entries comes to**, after those already read. -/
inductive FieldsRead (fuel room : Nat) (done : Fields) (cs : List Char) :
    Except ReadFault (Value × List Char) → Prop where
  | malformed : FieldsRead fuel room done cs (.error .malformed)
  | fault {start : List Char} {fault : ReadFault} (key : start <:+ cs)
      (entry : value fuel room start = .error fault) : FieldsRead fuel room done cs (.error fault)
  | last {start after rest : List Char} {v : Value} {name : String} {way : Key} {next : Fields}
      (key : start <:+ cs) (entry : value fuel room start = .ok (v, after))
      (put : changeAt false (putNew name v) way done = some next) (left : rest <:+ after) :
      FieldsRead fuel room done cs (.ok (.table next, rest))
  | more {start after rest : List Char} {v : Value} {name : String} {way : Key} {next : Fields}
      (key : start <:+ cs) (entry : value fuel room start = .ok (v, after))
      (put : changeAt false (putNew name v) way done = some next) (left : rest <:+ after)
      (closed : List Key) : FieldsRead fuel room done cs (fields fuel room next closed rest)

theorem fieldsRead (fuel room : Nat) (done : Fields) (closed : List Key) (cs : List Char) :
    FieldsRead fuel room done cs (fields (fuel + 1) room done closed cs) := by
  rw [fields.eq_def]
  dsimp only
  split
  · rename_i key more hkey
    have hstart : more.dropWhile isSpace <:+ cs :=
      ((List.dropWhile_suffix _).trans (List.suffix_cons '=' more)).trans (leaves_key? _ _ _ hkey)
    cases hentry : value fuel room (more.dropWhile isSpace) with
    | error fault => exact .fault hstart hentry
    | ok found =>
      obtain ⟨v, after⟩ := found
      dsimp only [bind, Except.bind]
      split
      · exact .malformed
      · split
        · exact .malformed
        · rename_i next hput
          have hspace := List.dropWhile_suffix isSpace (l := after)
          split
          · rename_i hclose
            rw [hclose] at hspace
            exact .last hstart hentry hput ((List.suffix_cons _ _).trans hspace)
          · rename_i rest hcomma
            rw [hcomma] at hspace
            have hrest : rest.dropWhile isSpace <:+ after :=
              (List.dropWhile_suffix _).trans ((List.suffix_cons _ _).trans hspace)
            exact .more hstart hentry hput hrest _
          · exact .malformed
  · exact .malformed

/-! ## What is left -/

/-- **Whatever is read leaves an end of what it was read from.** -/
theorem read_suffix (fuel : Nat) :
    (∀ room cs v rest, value fuel room cs = .ok (v, rest) → rest <:+ cs) ∧
    (∀ room done cs v rest, items fuel room done cs = .ok (v, rest) → rest <:+ cs) ∧
    ∀ room done closed cs v rest, fields fuel room done closed cs = .ok (v, rest) → rest <:+ cs := by
  induction fuel with
  | zero => exact ⟨nofun, nofun, nofun⟩
  | succ fuel ih =>
    obtain ⟨hvalue, hitems, hfields⟩ := ih
    refine ⟨fun room cs v rest h => ?_, fun room done cs v rest h => ?_,
      fun room done closed cs v rest h => ?_⟩
    · have hread := valueRead fuel room cs
      generalize value (fuel + 1) room cs = r at hread h
      cases hread with
      | malformed | full => cases h
      | emptyList left | emptyTable left =>
        obtain ⟨-, rfl⟩ := Prod.mk.inj (Except.ok.inj h)
        exact left.trans (List.suffix_cons _ _)
      | list room_left left => exact ((hitems _ _ _ _ _ h).trans left).trans (List.suffix_cons _ _)
      | table room_left left => exact ((hfields _ _ _ _ _ _ h).trans left).trans (List.suffix_cons _ _)
      | plain => exact plain_suffix h
    · have hread := itemsRead fuel room done cs
      generalize items (fuel + 1) room done cs = r at hread h
      cases hread with
      | malformed | fault => cases h
      | last item left =>
        obtain ⟨-, rfl⟩ := Prod.mk.inj (Except.ok.inj h)
        exact left.trans (hvalue _ _ _ _ item)
      | more item left => exact ((hitems _ _ _ _ _ h).trans left).trans (hvalue _ _ _ _ item)
    · have hread := fieldsRead fuel room done closed cs
      generalize fields (fuel + 1) room done closed cs = r at hread h
      cases hread with
      | malformed | fault => cases h
      | last key entry put left =>
        obtain ⟨-, rfl⟩ := Prod.mk.inj (Except.ok.inj h)
        exact (left.trans (hvalue _ _ _ _ entry)).trans key
      | more key entry put left closed =>
        exact (((hfields _ _ _ _ _ _ h).trans left).trans (hvalue _ _ _ _ entry)).trans key

theorem value_suffix (h : value fuel room cs = .ok (v, rest)) : rest <:+ cs :=
  (read_suffix fuel).1 _ _ _ _ h

/-! ## Lists and tables that are too deep -/

theorem wholeNumber_error {negative : Bool} {digits : List Char}
    (h : Decimal.wholeNumber negative digits = .error fault) : ∃ n, fault = .tooManyDigits n := by
  rw [Decimal.wholeNumber] at h
  split at h
  · exact ⟨_, (Except.error.inj h).symm⟩
  · cases h

/-- A plain value is malformed or has too many digits. -/
theorem plain_error (h : plain cs = .error fault) :
    fault = .malformed ∨ ∃ n, fault = .tooManyDigits n := by
  have hread := plainRead cs
  rw [h] at hread
  cases hread with
  | malformed => exact .inl rfl
  | fault found =>
    have hdecimal := decimalRead cs
    rw [found] at hdecimal
    cases hdecimal with
    | fault number => exact .inr (wholeNumber_error number)

theorem roomFor_eq_ok {c : Container} {less : Nat} (h : roomFor c room = .ok less) :
    room ≤ less + 3 := by
  rw [roomFor] at h
  split at h
  · cases h
  · obtain rfl := Except.ok.inj h
    cases c <;> simp only [roomOf] <;> omega

theorem roomFor_eq_error {c : Container} (h : roomFor c room = .error fault) : room < 3 := by
  rw [roomFor] at h
  split at h
  · cases c <;> simp only [roomOf] at * <;> omega
  · cases h

theorem countP_of_suffix (h : rest <:+ cs) : rest.countP opensAny ≤ cs.countP opensAny :=
  h.sublist.countP_le

theorem countP_opening {c : Char} (h : opensAny c = true) (cs : List Char) :
    (c :: cs).countP opensAny = cs.countP opensAny + 1 := List.countP_cons_of_pos h

/-- **What is too deep has used up the room**, of which an opening takes three parts at most. -/
theorem openings_of_tooDeep {c : Option Container} (fuel : Nat) :
    (∀ room cs, value fuel room cs = .error (.tooDeep c) → room < 3 * cs.countP opensAny) ∧
    (∀ room done cs, items fuel room done cs = .error (.tooDeep c) → room < 3 * cs.countP opensAny) ∧
    ∀ room done closed cs, fields fuel room done closed cs = .error (.tooDeep c) →
      room < 3 * cs.countP opensAny := by
  induction fuel with
  | zero => exact ⟨nofun, nofun, nofun⟩
  | succ fuel ih =>
    obtain ⟨hvalue, hitems, hfields⟩ := ih
    refine ⟨fun room cs h => ?_, fun room done cs h => ?_, fun room done closed cs h => ?_⟩
    · have hread := valueRead fuel room cs
      generalize value (fuel + 1) room cs = r at hread h
      cases hread with
      | malformed | emptyList | emptyTable => cases h
      | full opens full =>
        have hroom := roomFor_eq_error full
        rw [countP_opening opens]
        omega
      | list room_left left =>
        have hless := hitems _ _ _ h
        have hroom := roomFor_eq_ok room_left
        have hcount := countP_of_suffix left
        rw [countP_opening rfl]
        omega
      | table room_left left =>
        have hless := hfields _ _ _ _ h
        have hroom := roomFor_eq_ok room_left
        have hcount := countP_of_suffix left
        rw [countP_opening rfl]
        omega
      | plain =>
        rcases plain_error h with hmalformed | ⟨n, hdigits⟩
        · cases hmalformed
        · cases hdigits
    · have hread := itemsRead fuel room done cs
      generalize items (fuel + 1) room done cs = r at hread h
      cases hread with
      | malformed | last => cases h
      | fault item => exact hvalue _ _ (item.trans h)
      | more item left =>
        have hless := hitems _ _ _ h
        have hcount := countP_of_suffix (left.trans (value_suffix item))
        omega
    · have hread := fieldsRead fuel room done closed cs
      generalize fields (fuel + 1) room done closed cs = r at hread h
      cases hread with
      | malformed | last => cases h
      | fault key entry =>
        have hless := hvalue _ _ (entry.trans h)
        have hcount := countP_of_suffix key
        omega
      | more key entry put left closed =>
        have hless := hfields _ _ _ _ h
        have hcount := countP_of_suffix ((left.trans (value_suffix entry)).trans key)
        omega

end FileTags.Toml
