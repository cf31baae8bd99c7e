import FileTags.Proofs.Entries
import FileTags.Proofs.Toml.Documents
/-! # What documents can hold

In a document every name has a value, and no table has a name twice (`Representable`).  What is read is so
(`representable_of_read`), for a name is only given a value while it has none; and what is so is printed,
unless a number in it has too many digits to be shown (`fault_write`), for only what is missing has no text.
-/
namespace FileTags.Toml

/-- **A value that a document can hold**: nothing in it is missing, and no table has a name twice. -/
inductive Representable : Value → Prop where
  | bool (b : Bool) : Representable (.bool b)
  | int (n : Int) : Representable (.int n)
  | float (x : Decimal.Binary64) : Representable (.float x)
  | text (s : String) : Representable (.text s)
  | moment (m : Moment) : Representable (.moment m)
  | list {vs : List Value} (values : ∀ v ∈ vs, Representable v) : Representable (.list vs)
  | table {es : Fields} (distinct : (Entries.keys es).Nodup) (values : ∀ e ∈ es, Representable e.2) :
      Representable (.table es)

variable {fuel room : Nat} {cs rest : List Char} {v : Value} {vs : List Value} {es es' : Fields} {k : String}
  {d d' : Document}

namespace Representable

theorem distinct (h : Representable (.table es)) : (Entries.keys es).Nodup := by
  cases h
  assumption

theorem values (h : Representable (.table es)) : ∀ e ∈ es, Representable e.2 := by
  cases h
  assumption

theorem items (h : Representable (.list vs)) : ∀ v ∈ vs, Representable v := by
  cases h
  assumption

theorem emptyList : Representable (.list []) := .list nofun

theorem emptyTable : Representable (.table []) := .table List.nodup_nil nofun

theorem find? (h : Representable (.table es)) (hv : Entries.find? es k = some v) : Representable v :=
  h.values _ (Entries.mem_of_find? hv)

theorem put (h : Representable (.table es)) (hv : Representable v) :
    Representable (.table (Entries.put es k v)) :=
  .table (Entries.nodup_keys_put h.distinct k v) (Entries.forall_mem_put h.values k hv)

theorem concat (h : Representable (.list vs)) (hv : Representable v) : Representable (.list (vs ++ [v])) :=
  .list (List.forall_mem_append.2 ⟨h.items, List.forall_mem_singleton.2 hv⟩)

end Representable

/-! ## What is read -/

theorem representable_words : ∀ e ∈ words, Representable e.2 := by
  intro e he
  simp only [words, List.mem_cons, List.not_mem_nil, or_false] at he
  rcases he with rfl | rfl | rfl | rfl | rfl | rfl | rfl | rfl <;> constructor

theorem representable_of_based? (h : based? cs = some (v, rest)) : Representable v := by
  rw [based?.eq_def] at h
  split at h
  · obtain ⟨found, -, hfound⟩ := Option.map_eq_some_iff.1 h
    obtain ⟨rfl, -⟩ := Prod.mk.inj hfound
    exact .int _
  · cases h

theorem representable_of_word? (h : word? cs = some (v, rest)) : Representable v := by
  obtain ⟨e, he, hword⟩ := List.exists_of_findSome?_eq_some h
  obtain ⟨after, -, hafter⟩ := Option.map_eq_some_iff.1 hword
  obtain ⟨rfl, -⟩ := Prod.mk.inj hafter
  exact representable_words e he

theorem representable_of_plain (h : plain cs = .ok (v, rest)) : Representable v := by
  have hread := plainRead cs
  rw [h] at hread
  cases hread with
  | text => exact .text _
  | moment => exact .moment _
  | based found => exact representable_of_based? found
  | decimal found =>
    have hdecimal := decimalRead cs
    rw [found] at hdecimal
    cases hdecimal with
    | int n => exact .int n
    | float x => exact .float x
  | word found => exact representable_of_word? found

/-- **A change of a table within a table** keeps the whole fit for a document if it keeps the part so. -/
theorem representable_of_changeAt {enterLists : Bool} {change : Fields → Option Fields} {key : Key}
    (hchange : ∀ es es', Representable (.table es) → change es = some es' → Representable (.table es'))
    (hes : Representable (.table es)) (h : changeAt enterLists change key es = some es') :
    Representable (.table es') := by
  induction key generalizing es es' with
  | nil => exact hchange es es' hes h
  | cons k ks ih =>
    rw [changeAt] at h
    split at h
    · obtain ⟨sub, hsub, rfl⟩ := Option.map_eq_some_iff.1 h
      exact hes.put (ih .emptyTable hsub)
    · rename_i hfind
      obtain ⟨sub, hsub, rfl⟩ := Option.map_eq_some_iff.1 h
      exact hes.put (ih (hes.find? hfind) hsub)
    · rename_i tables hfind
      have htables := (hes.find? hfind).items
      split at h
      · rename_i hlast
        obtain ⟨sub, hsub, rfl⟩ := Option.map_eq_some_iff.1 h
        have hbefore : Representable (.list tables.dropLast) := .list fun v hv =>
          htables v ((List.dropLast_sublist tables).subset hv)
        exact hes.put (hbefore.concat (ih (htables _ (List.mem_of_getLast? hlast)) hsub))
      · cases h
    · cases h

theorem representable_of_putNew (hv : Representable v) (hes : Representable (.table es))
    (h : putNew k v es = some es') : Representable (.table es') := by
  rw [putNew] at h
  split at h
  · cases h
  · obtain rfl := Option.some.inj h
    exact hes.put hv

theorem representable_of_appendTable (hes : Representable (.table es))
    (h : Document.appendTable k es = some es') : Representable (.table es') := by
  rw [Document.appendTable] at h
  split at h
  · obtain rfl := Option.some.inj h
    exact hes.put (.list (List.forall_mem_singleton.2 .emptyTable))
  · rename_i hfind
    obtain rfl := Option.some.inj h
    exact hes.put ((hes.find? hfind).concat .emptyTable)
  · cases h

/-- **Whatever value is read can stand in a document.** -/
theorem representable_of_value (fuel : Nat) :
    (∀ room cs v rest, value fuel room cs = .ok (v, rest) → Representable v) ∧
    (∀ room done cs v rest, Representable (.list done) → items fuel room done cs = .ok (v, rest) →
      Representable v) ∧
    ∀ room done closed cs v rest, Representable (.table done) →
      fields fuel room done closed cs = .ok (v, rest) → Representable v := by
  induction fuel with
  | zero => exact ⟨nofun, fun _ _ _ _ _ _ => nofun, fun _ _ _ _ _ _ _ => nofun⟩
  | succ fuel ih =>
    obtain ⟨hvalue, hitems, hfields⟩ := ih
    refine ⟨fun room cs v rest h => ?_, fun room done cs v rest hdone h => ?_,
      fun room done closed cs v rest hdone h => ?_⟩
    · have hread := valueRead fuel room cs
      generalize value (fuel + 1) room cs = r at hread h
      cases hread with
      | malformed | full => cases h
      | emptyList left =>
        obtain ⟨rfl, -⟩ := Prod.mk.inj (Except.ok.inj h)
        exact .emptyList
      | emptyTable left =>
        obtain ⟨rfl, -⟩ := Prod.mk.inj (Except.ok.inj h)
        exact .emptyTable
      | list room_left left => exact hitems _ _ _ _ _ .emptyList h
      | table room_left left => exact hfields _ _ _ _ _ _ .emptyTable h
      | plain => exact representable_of_plain h
    · have hread := itemsRead fuel room done cs
      generalize items (fuel + 1) room done cs = r at hread h
      cases hread with
      | malformed | fault => cases h
      | last item left =>
        obtain ⟨rfl, -⟩ := Prod.mk.inj (Except.ok.inj h)
        exact hdone.concat (hvalue _ _ _ _ item)
      | more item left => exact hitems _ _ _ _ _ (hdone.concat (hvalue _ _ _ _ item)) h
    · have hread := fieldsRead fuel room done closed cs
      generalize fields (fuel + 1) room done closed cs = r at hread h
      cases hread with
      | malformed | fault => cases h
      | last key entry put left =>
        obtain ⟨rfl, -⟩ := Prod.mk.inj (Except.ok.inj h)
        exact representable_of_changeAt (fun _ _ => representable_of_putNew (hvalue _ _ _ _ entry)) hdone put
      | more key entry put left closed =>
        have hnext := representable_of_changeAt
          (fun _ _ => representable_of_putNew (hvalue _ _ _ _ entry)) hdone put
        exact hfields _ _ _ _ _ _ hnext h

theorem representable_of_statement (hd : Representable (.table d.root))
    (h : statement d cs = .ok (d', rest)) : Representable (.table d'.root) := by
  have hread := statementRead d cs
  generalize statement d cs = r at hread h
  cases hread with
  | malformed | fault => cases h
  | comment =>
    obtain ⟨rfl, -⟩ := Prod.mk.inj (Except.ok.inj h)
    exact hd
  | openNext opened left =>
    obtain ⟨rfl, -⟩ := Prod.mk.inj (Except.ok.inj h)
    rw [Document.openNext] at opened
    split at opened
    · cases opened
    · obtain ⟨root, hroot, hopened⟩ := Option.bind_eq_some_iff.1 opened
      obtain rfl := Option.some.inj hopened
      exact representable_of_changeAt (fun _ _ => representable_of_appendTable) hd hroot
  | openTable opened left =>
    obtain ⟨rfl, -⟩ := Prod.mk.inj (Except.ok.inj h)
    rw [Document.openTable] at opened
    split at opened
    · cases opened
    · obtain ⟨root, hroot, hopened⟩ := Option.bind_eq_some_iff.1 opened
      obtain rfl := Option.some.inj hopened
      refine representable_of_changeAt (fun es es' hes hsame => ?_) hd hroot
      exact Option.some.inj hsame ▸ hes
  | assign left entry assigned =>
    obtain ⟨rfl, -⟩ := Prod.mk.inj (Except.ok.inj h)
    rw [Document.assign] at assigned
    dsimp only at assigned
    split at assigned
    · cases assigned
    · split at assigned
      · cases assigned
      · obtain ⟨root, hroot, hassigned⟩ := Option.bind_eq_some_iff.1 assigned
        obtain rfl := Option.some.inj hassigned
        have hv := (representable_of_value _).1 _ _ _ _ entry
        exact representable_of_changeAt (fun _ _ => representable_of_putNew hv) hd hroot

theorem representable_of_statements (hd : Representable (.table d.root))
    (h : statements fuel d cs = .ok d') : Representable (.table d'.root) := by
  induction fuel generalizing d cs with
  | zero =>
    obtain rfl := Except.ok.inj h
    exact hd
  | succ fuel ih =>
    have hread := statementsRead fuel d cs
    generalize statements (fuel + 1) d cs = r at hread h
    cases hread with
    | malformed | fault => cases h
    | done =>
      obtain rfl := Except.ok.inj h
      exact hd
    | blank left => exact ih hd h
    | last left first =>
      obtain rfl := Except.ok.inj h
      exact representable_of_statement hd first
    | more left first next => exact ih (representable_of_statement hd first) h

/-- **Whatever document is read, no table in it has a name twice, and nothing in it is missing.** -/
theorem representable_of_read {s : String} (h : read s = .ok es) : Representable (.table es) := by
  rw [read] at h
  cases hlines : statements ((joinLineEnds s.toList).length + 1) .empty (joinLineEnds s.toList) with
  | error fault =>
    rw [hlines] at h
    cases h
  | ok d =>
    rw [hlines] at h
    obtain rfl := Except.ok.inj h
    exact representable_of_statements .emptyTable hlines

/-! ## What is printed -/

/-- A chunk that is printed, or else fails for its digits. -/
def Shown (showable : Bool) (c : Chunk) : Prop :=
  ∃ s, c = if showable then .ok s else .error .tooManyDigitsToShow

/-- **Chunks tell whether a value can be shown**: if it can all of them are printed, and else one of them
fails for its digits, and none for anything else. -/
structure Tell (cs : List Chunk) (showable : Bool) : Prop where
  printed : ∀ c ∈ cs, ∃ b, Shown b c
  all : showable = true → ∀ c ∈ cs, Shown true c
  fails : showable = false → ∃ c ∈ cs, Shown false c

theorem Shown.map {b : Bool} {c : Chunk} (h : Shown b c) (f : String → String) : Shown b (c.map f) := by
  obtain ⟨s, rfl⟩ := h
  cases b <;> exact ⟨f s, rfl⟩

namespace Tell

variable {cs ds : List Chunk} {showable : Bool} {α : Type} {p : α → Bool} {f : α → List Chunk} {xs : List α}

theorem singleton {c : Chunk} (h : Shown showable c) : Tell [c] showable where
  printed := List.forall_mem_singleton.2 ⟨_, h⟩
  all hb := List.forall_mem_singleton.2 (hb ▸ h)
  fails hb := ⟨c, List.mem_cons_self, hb ▸ h⟩

/-- More chunks that are printed change nothing. -/
theorem of_mem (h : Tell cs showable) (hsub : cs ⊆ ds) (hmore : ∀ c ∈ ds, c ∈ cs ∨ Shown true c) :
    Tell ds showable where
  printed c hc := (hmore c hc).elim (h.printed c) fun hc => ⟨true, hc⟩
  all hb c hc := (hmore c hc).elim (h.all hb c) id
  fails hb := (h.fails hb).imp fun _ hc => ⟨hsub hc.1, hc.2⟩

/-- What is printed of several things tells whether all of them can be shown. -/
theorem flatMap (h : ∀ x ∈ xs, Tell (f x) (p x)) : Tell (xs.flatMap f) (xs.all p) where
  printed c hc := by
    obtain ⟨x, hx, hc⟩ := List.mem_flatMap.1 hc
    exact (h x hx).printed c hc
  all hb c hc := by
    obtain ⟨x, hx, hc⟩ := List.mem_flatMap.1 hc
    exact (h x hx).all (List.all_eq_true.1 hb x hx) c hc
  fails hb := by
    obtain ⟨x, hx, hnot⟩ := List.all_eq_false.1 hb
    obtain ⟨c, hc, hfails⟩ := (h x hx).fails (Bool.eq_false_iff.2 hnot)
    exact ⟨c, List.mem_flatMap.2 ⟨x, hx, hc⟩, hfails⟩

/-- **Printing chunks fails if what they tell of cannot be shown**, and only then. -/
theorem fault_ofChunks (h : Tell cs showable) :
    (Printed.ofChunks cs).fault = if showable then none else some .tooManyDigitsToShow := by
  cases showable with
  | true =>
    have hall := h.all rfl
    clear h
    induction cs with
    | nil => rfl
    | cons c cs ih =>
      obtain ⟨⟨s, rfl⟩, hrest⟩ := List.forall_mem_cons.1 hall
      exact ih hrest
  | false =>
    have hfails := h.fails rfl
    have hprinted := h.printed
    clear h
    induction cs with
    | nil => exact absurd hfails nofun
    | cons c cs ih =>
      obtain ⟨⟨b, s, rfl⟩, hrest⟩ := List.forall_mem_cons.1 hprinted
      cases b with
      | false => rfl
      | true =>
        -- The first chunk is printed, so one of the others fails.
        obtain ⟨c, hc, hshown⟩ := hfails
        rcases List.mem_cons.1 hc with rfl | hc
        · obtain ⟨_, hfalse⟩ := hshown
          cases hfalse
        · exact ih ⟨c, hc, hshown⟩ hrest

end Tell

theorem literalItems_eq_map (depth : Nat) (vs : List Value) :
    literalItems depth vs = vs.map fun v => (literal depth v).map (indentation depth ++ ·) := by
  induction vs with
  | nil => rfl
  | cons v vs ih => rw [literalItems, ih, List.map_cons]

theorem literalEntries_eq_map (es : Fields) :
    literalEntries es = es.map fun e => (literal 0 e.2).map (writeName e.1 ++ " = " ++ ·) := by
  induction es with
  | nil => rfl
  | cons e es ih => rw [literalEntries, ih, List.map_cons]

theorem listSections_eq_map (name : String) (vs : List Value) :
    listSections name vs = vs.map (sections name true) := by
  induction vs with
  | nil => rfl
  | cons v vs ih => rw [listSections, ih, List.map_cons]

/-- The parts of something all have their texts, or the first that cannot be shown fails. -/
theorem exists_allOf {α : Type} {p : α → Bool} {f : α → Chunk} {xs : List α}
    (h : ∀ x ∈ xs, Shown (p x) (f x)) :
    ∃ texts, allOf (xs.map f) = if xs.all p then .ok texts else .error .tooManyDigitsToShow := by
  induction xs with
  | nil => exact ⟨[], rfl⟩
  | cons x xs ih =>
    obtain ⟨⟨s, hs⟩, hrest⟩ := List.forall_mem_cons.1 h
    obtain ⟨texts, htexts⟩ := ih hrest
    rw [allOf] at htexts
    refine ⟨s :: texts, ?_⟩
    rw [allOf, List.map_cons, List.mapM_cons, hs, htexts, List.all_cons]
    cases p x <;> cases xs.all p <;> rfl

/-- **A value has its text, if it can be shown.** -/
theorem shown_literal (h : Representable v) (depth : Nat) : Shown v.isShowable (literal depth v) := by
  induction h generalizing depth with
  | bool | float | text | moment => exact ⟨_, rfl⟩
  | int n =>
    rw [literal]
    exact ⟨toString n, rfl⟩
  | @list vs values ih =>
    obtain ⟨texts, htexts⟩ := exists_allOf fun v hv => (ih v hv (depth + 1)).map (indentation (depth + 1) ++ ·)
    rw [literal, literalItems_eq_map, htexts, Value.isShowable, Value.areShowable_eq_all]
    cases vs.all Value.isShowable with
    | false => exact ⟨"", rfl⟩
    | true =>
      show Shown true (if texts.isEmpty = true then _ else _)
      split <;> exact ⟨_, rfl⟩
  | @table es distinct values ih =>
    obtain ⟨texts, htexts⟩ := exists_allOf fun e he => (ih e he 0).map (writeName e.1 ++ " = " ++ ·)
    rw [literal, literalEntries_eq_map, htexts, Value.isShowable, Value.entriesAreShowable_eq_all]
    cases es.all fun e => e.2.isShowable with
    | false => exact ⟨"", rfl⟩
    | true =>
      show Shown true (if texts.isEmpty = true then _ else _)
      split <;> exact ⟨_, rfl⟩

theorem mem_joinSections {head : List Chunk} {inner : List (List Chunk)} {c : Chunk} :
    c ∈ head ++ inner.flatten → c ∈ joinSections head inner := by
  rw [List.mem_append, List.mem_flatten]
  intro h
  rw [joinSections]
  split
  · rename_i hempty
    rw [List.isEmpty_iff.1 hempty] at h
    obtain ⟨cs, hcs, hc⟩ := h.resolve_left List.not_mem_nil
    clear hempty
    induction inner with
    | nil => cases hcs
    | cons first inner ih =>
      cases inner with
      | nil =>
        rw [List.intercalate_singleton]
        rwa [List.mem_singleton.1 hcs] at hc
      | cons second inner =>
        rw [List.intercalate_cons_cons]
        rcases List.mem_cons.1 hcs with rfl | hcs
        · exact List.mem_append_left _ (List.mem_append_left _ hc)
        · exact List.mem_append_right _ (ih (.inr ⟨cs, hcs, hc⟩) hcs)
  · refine List.mem_append.2 (h.imp_right fun ⟨cs, hcs, hc⟩ => ?_)
    exact List.mem_flatMap.2 ⟨cs, hcs, List.mem_cons_of_mem _ hc⟩

/-- Only blank lines are put between sections. -/
theorem of_mem_joinSections {head : List Chunk} {inner : List (List Chunk)} {c : Chunk}
    (h : c ∈ joinSections head inner) : c ∈ head ++ inner.flatten ∨ c = .ok "\n" := by
  rw [List.mem_append, List.mem_flatten]
  rw [joinSections] at h
  split at h
  · clear * - h
    induction inner with
    | nil => cases h
    | cons first inner ih =>
      cases inner with
      | nil =>
        rw [List.intercalate_singleton] at h
        exact .inl (.inr ⟨first, List.mem_cons_self, h⟩)
      | cons second inner =>
        rw [List.intercalate_cons_cons, List.mem_append, List.mem_append] at h
        rcases h with (h | h) | h
        · exact .inl (.inr ⟨first, List.mem_cons_self, h⟩)
        · exact .inr (List.mem_singleton.1 h)
        · exact (ih h).imp_left (Or.imp_right fun ⟨cs, hcs, hc⟩ => ⟨cs, List.mem_cons_of_mem first hcs, hc⟩)
  · rcases List.mem_append.1 h with h | h
    · exact .inl (.inl h)
    · obtain ⟨cs, hcs, hc⟩ := List.mem_flatMap.1 h
      rcases List.mem_cons.1 hc with rfl | hc
      · exact .inr rfl
      · exact .inl (.inr ⟨cs, hcs, hc⟩)

/-- What an entry of a table is printed as: its line, or its sections. -/
def chunksOf (outer : String) (e : String × Value) : List Chunk :=
  if hasSections e.2 then (innerSections outer [e]).flatten else [line e.1 e.2]

theorem mem_flatMap_chunksOf {outer : String} {c : Chunk} :
    c ∈ es.flatMap (chunksOf outer) ↔ c ∈ plainLines es ∨ c ∈ (innerSections outer es).flatten := by
  induction es with
  | nil => simp [plainLines, innerSections]
  | cons e es ih =>
    have hinner : innerSections outer (e :: es) = innerSections outer [e] ++ innerSections outer es := by
      rw [innerSections.eq_def, innerSections.eq_def outer [e]]
      simp only [show innerSections outer [] = [] by rw [innerSections], List.append_nil]
    rw [List.flatMap_cons, List.mem_append, ih, hinner, List.flatten_append, List.mem_append, chunksOf]
    by_cases hsections : hasSections e.2 = true
    · have hplain : plainLines (e :: es) = plainLines es := by
        rw [plainLines, List.filter_cons_of_neg (by rw [hsections]; exact Bool.false_ne_true), plainLines]
      rw [if_pos hsections, hplain]
      exact or_left_comm
    · have hplain : plainLines (e :: es) = line e.1 e.2 :: plainLines es := by
        rw [plainLines, List.filter_cons_of_pos (by simp [hsections]), List.map_cons, plainLines]
      have hnone : innerSections outer [e] = [] := by
        rw [innerSections.eq_def]
        simp only [hsections, Bool.false_eq_true, if_false, List.nil_append]
        rw [innerSections]
      rw [if_neg hsections, hplain, hnone, List.mem_singleton, List.mem_cons, List.flatten_nil, or_assoc]
      simp only [List.not_mem_nil, false_or]

/-- What is printed of a table is what is printed of its entries, with headers and blank lines. -/
theorem subset_sections (name : String) (inList : Bool) (es : Fields) :
    es.flatMap (chunksOf name) ⊆ sections name inList (.table es) := by
  intro c hc
  rw [sections]
  refine mem_joinSections (List.mem_append.2 ((mem_flatMap_chunksOf.1 hc).imp_left fun hc => ?_))
  exact List.mem_append_right _ hc

theorem mem_sections {name : String} {inList : Bool} {c : Chunk} (h : c ∈ sections name inList (.table es)) :
    c ∈ es.flatMap (chunksOf name) ∨ Shown true c := by
  rw [sections] at h
  rcases of_mem_joinSections h with h | rfl
  · rw [List.append_assoc, List.mem_append] at h
    rcases h with h | h
    · right
      rw [header] at h
      split at h
      · exact ⟨_, List.mem_singleton.1 h⟩
      · split at h
        · cases h
        · exact ⟨_, List.mem_singleton.1 h⟩
    · exact .inl (mem_flatMap_chunksOf.2 (List.mem_append.1 h))
  · exact .inr ⟨_, rfl⟩

/-- The sections of a table tell whether it can be shown, and so do those of a list of tables, which stand
where those of a table do. -/
theorem tell_sections (h : Representable v) :
    (∀ es, v = .table es → ∀ name inList, Tell (sections name inList v) v.isShowable) ∧
    ∀ vs, v = .list vs → vs.all isTable = true → ∀ name,
      Tell (listSections name vs).flatten v.isShowable := by
  induction h with
  | bool | int | float | text | moment => exact ⟨nofun, nofun⟩
  | @list vs values ih =>
    refine ⟨nofun, fun vs' hvs htables name => ?_⟩
    cases hvs
    rw [listSections_eq_map, Value.isShowable, Value.areShowable_eq_all]
    refine Tell.flatMap fun v hv => ?_
    have htable := List.all_eq_true.1 htables v hv
    cases v with
    | table es => exact (ih _ hv).1 es rfl name true
    | _ => cases htable
  | @table es distinct values ih =>
    refine ⟨fun es' hes name inList => ?_, nofun⟩
    cases hes
    -- The entries one by one: a table has a section, and a list of tables one for each of them.
    have hentries : Tell (es.flatMap (chunksOf name)) (es.all fun e => e.2.isShowable) := by
      refine Tell.flatMap fun e he => ?_
      rw [chunksOf]
      obtain ⟨k, v⟩ := e
      split
      · rename_i hsections
        rw [innerSections.eq_def]
        dsimp only
        rw [if_pos hsections, show innerSections name [] = [] by rw [innerSections], List.append_nil]
        split
        · rename_i vs
          have htables : vs.all isTable = true := by
            simp only [hasSections, Bool.and_eq_true] at hsections
            exact hsections.1.2
          exact (ih _ he).2 vs rfl htables _
        · rw [List.flatten_singleton]
          cases v with
          | table es' => exact (ih _ he).1 es' rfl _ _
          | list vs => rename_i hnot; exact absurd rfl (hnot vs)
          | _ => cases hsections
      · exact .singleton ((shown_literal (values _ he) 0).map _)
    rw [Value.isShowable, Value.entriesAreShowable_eq_all]
    exact hentries.of_mem (subset_sections name inList es) fun c => mem_sections

/-- **Whatever a document can hold is printed, if it can be shown**; and else printing it fails. -/
theorem fault_write (h : Representable (.table es)) :
    (write es).fault = if (Value.table es).isShowable then none else some .tooManyDigitsToShow :=
  ((tell_sections h).1 es rfl "" false).fault_ofChunks

end FileTags.Toml
