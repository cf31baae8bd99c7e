import FileTags.Proofs.Store.Operations
/-! # The store as an index

What a client may think the store is: an index that gives some identities a set of tags, in order
and never empty (`Index`).  What a call does to an index (`Index.step`) and what it answers
(`Index.Answers`) is said without a storage, a record or a value that is no tag.

Over any storage that acts as a map the store is that index (`session_follows`).  Call by call, for
as many calls as there are, it gives the answer of the index and leaves the storage with exactly the
records of the index after the call, so each record still is a list of tags, not empty and without
repetition.  The order in which entries are listed is that of the storage, so the index leaves it
open.
-/
namespace FileTags

/-- Some tags in order, each once. -/
structure TagSet where
  names : List String
  ne_nil : names ≠ []
  nodup : names.Nodup
  valid : ∀ n ∈ names, Tag.isName n = true

namespace TagSet

/-- The record of a set of tags. -/
def record (T : TagSet) : Record := Record.ofNames T.names

/-- The first occurrences among some names, if there are any and all of them are tags. -/
def ofNames? (names : List String) : Option TagSet :=
  if h : names ≠ [] ∧ ∀ n ∈ names, Tag.isName n = true then
    some
      { names := names.eraseDups
        ne_nil := fun he => h.1 (eraseDups_eq_nil.1 he)
        nodup := nodup_eraseDups names
        valid := fun n hn => h.2 n (List.mem_eraseDups.1 hn) }
  else none

theorem ofNames?_nil : ofNames? [] = none := dif_neg fun h => h.1 rfl

theorem names_ofNames? {names : List String} (hv : ∀ n ∈ names, Tag.isName n = true) :
    (ofNames? names).map TagSet.names = Storage.recordFor names.eraseDups := by
  cases names with
  | nil => rw [ofNames?_nil, List.eraseDups_nil]; rfl
  | cons n ns =>
    have hne : (n :: ns).eraseDups ≠ [] := fun he => by
      rw [List.eraseDups_cons] at he
      cases he
    rw [ofNames?, dif_pos ⟨List.cons_ne_nil n ns, hv⟩, Storage.recordFor, if_neg hne]
    rfl

end TagSet

/-- **An index**: a set of tags for each of some identities. -/
abbrev Index := String → Option TagSet

namespace Store

open Function (update)

/-- What a client can ask of the store. -/
inductive Call where
  | set (id : String) (entries : List Value)
  | clear (id : String)
  | rename (old new : String)
  | get (id : String)
  | items
  | identities

/-- What the store can answer with. -/
inductive Reply where
  | done
  | moved (b : Bool)
  | tags (record : Record)
  | items (entries : List (String × Record))
  | identities (ids : List String)

/-- The operation of the store that a call asks for. -/
def Call.act {σ : Type} (s : Storage σ) : Call → Action (World σ) Reply
  | .set id entries => do
    Store.set s id entries
    return .done
  | .clear id => do
    Store.clear s id
    return .done
  | .rename old new => return .moved (← Store.rename s old new)
  | .get id => return .tags (← Store.get s id)
  | .items => return .items (← Store.items s)
  | .identities => return .identities (← Store.identities s)

/-- The calls of a client one after another, each with its result and the world it leaves.  A call
that fails does not end the session. -/
def session {σ : Type} (s : Storage σ) (w : World σ) :
    List Call → List (Call × Except Failure Reply × World σ)
  | [] => []
  | c :: calls =>
    let out := (c.act s).runFrom w
    (c, out) :: session s out.2 calls

end Store

namespace Index

open Function (update)
open Store (Call Reply)
open Storage (Contents)

/-- The tags of an identity. -/
def names (M : Index) (id : String) : List String := (M id).elim [] TagSet.names

/-- What a storage holds for an index. -/
def contents (M : Index) : Contents := fun id => (M id).map TagSet.names

/-- The index after a call. -/
def step (M : Index) : Call → Index
  | .set id entries =>
    if entries.all Tag.isValid then update M id (TagSet.ofNames? (entries.filterMap Value.text?))
    else M
  | .clear id => update M id none
  | .rename old new =>
    if old = new ∨ (M old).isNone then M else update (update M new (M old)) old none
  | _ => M

/-- The results that a call can have.  Entries that are not all tags are refused, by those that are
none; a rename tells whether there was anything to move; whatever is listed is listed once. -/
def Answers (M : Index) : Call → Except Failure Reply → Prop
  | .set _ entries, r =>
    r = if entries.all Tag.isValid then .ok .done
      else .error (Tag.refusal (entries.filter fun v => !Tag.isValid v))
  | .clear _, r => r = .ok .done
  | .rename old new, r => r = .ok (.moved (decide (old ≠ new) && (M old).isSome))
  | .get id, r => r = .ok (.tags ((M id).elim [] TagSet.record))
  | .items, r => ∃ entries, r = .ok (.items entries) ∧ (entries.map Prod.fst).Nodup ∧
      ∀ id record, (id, record) ∈ entries ↔ ∃ T, M id = some T ∧ record = T.record
  | .identities, r => ∃ ids, r = .ok (.identities ids) ∧ ids.Nodup ∧
      ∀ id, id ∈ ids ↔ (M id).isSome = true

end Index

/-- Records as the store writes them: tags, each once, and never none. -/
def Storage.Contents.WellFormed (m : Storage.Contents) : Prop :=
  ∀ id names, m id = some names →
    names ≠ [] ∧ names.Nodup ∧ ∀ n ∈ names, Tag.isName n = true

namespace Index

open Function (update)
open Store (Call Reply)
open Storage (Contents)

variable {σ : Type}

/-- The storage of a world holds what an index says. -/
structure Held (R : σ → Contents → Prop) (M : Index) (w : World σ) : Prop where
  holds : R w.state M.contents
  wellFormed : M.contents.WellFormed

/-- **A session follows an index** if each call in it has a result that the index allows, and leaves
the storage with what the index says after the call. -/
def Follows (R : σ → Contents → Prop) (M : Index) :
    List (Call × Except Failure Reply × World σ) → Prop
  | [] => True
  | (c, r, w) :: rest => M.Answers c r ∧ Held R (M.step c) w ∧ Follows R (M.step c) rest

/-! ## Indices and contents -/

theorem wellFormed_contents (M : Index) : M.contents.WellFormed := by
  intro id names h
  obtain ⟨T, -, rfl⟩ := Option.map_eq_some_iff.1 h
  exact ⟨T.ne_nil, T.nodup, T.valid⟩

/-- Records as the store writes them are those of an index. -/
theorem exists_of_wellFormed {m : Contents} (hm : m.WellFormed) : ∃ M : Index, M.contents = m := by
  refine ⟨fun id => TagSet.ofNames? ((m id).getD []), funext fun id => ?_⟩
  show (TagSet.ofNames? _).map TagSet.names = m id
  cases h : m id with
  | none => rw [Option.getD_none, TagSet.ofNames?_nil]; rfl
  | some names =>
    -- There is nothing in the list to drop, so the set of its first occurrences is the list.
    obtain ⟨hne, hnd, hv⟩ := hm id names h
    rw [Option.getD_some, TagSet.names_ofNames? hv, eraseDups_of_nodup hnd, Storage.recordFor,
      if_neg hne]

theorem contents_update (M : Index) (id : String) (T? : Option TagSet) :
    contents (update M id T?) = update M.contents id (T?.map TagSet.names) := by
  funext j
  by_cases hj : j = id
  · rw [contents, hj, Function.update_self, Function.update_self]
  · rw [contents, Function.update_of_ne hj, Function.update_of_ne hj, contents]

theorem tags_contents (M : Index) (id : String) : M.contents.tags id = M.names id := by
  rw [Contents.tags, contents, names]
  cases M id with
  | none => exact List.eraseDups_nil
  | some T => exact eraseDups_of_nodup T.nodup

theorem names_of_eq_some {M : Index} {id : String} {T : TagSet} (h : M id = some T) :
    M.names id = T.names := by
  rw [names, h]
  rfl

theorem nodup_names (M : Index) (id : String) : (M.names id).Nodup := by
  rw [names]
  cases M id with
  | none => exact List.nodup_nil
  | some T => exact T.nodup

theorem isName_of_mem_names {M : Index} {id n : String} (h : n ∈ M.names id) :
    Tag.isName n = true := by
  rw [names] at h
  cases hM : M id with
  | none =>
    rw [hM] at h
    cases h
  | some T =>
    rw [hM] at h
    exact T.valid n h

theorem tags_contents_eq_nil {M : Index} {id : String} :
    M.contents.tags id = [] ↔ (M id).isNone = true := by
  rw [tags_contents, names]
  cases M id with
  | none => exact iff_of_true rfl rfl
  | some T => exact iff_of_false T.ne_nil Bool.false_ne_true

/-- The entries of an index are what is tagged in its contents. -/
theorem mem_tagged {M : Index} {keys : List String} (hk : M.contents.Lists keys) (id : String)
    (record : Record) :
    (id, record) ∈ M.contents.tagged keys ↔ ∃ T, M id = some T ∧ record = T.record := by
  rw [Contents.tagged, List.mem_filterMap]
  constructor
  · rintro ⟨j, -, hj⟩
    obtain ⟨hne, he⟩ := Option.ite_none_left_eq_some.1 hj
    obtain ⟨rfl, rfl⟩ := Prod.mk.inj (Option.some.inj he)
    cases h : M j with
    | none => exact absurd (tags_contents_eq_nil.2 (by rw [h]; rfl)) hne
    | some T => exact ⟨T, rfl, by rw [tags_contents, names_of_eq_some h]; rfl⟩
  · rintro ⟨T, hT, rfl⟩
    have hne : ¬ M.contents.tags id = [] := by
      rw [tags_contents_eq_nil, hT]
      exact Bool.false_ne_true
    refine ⟨id, (hk.mem_iff id).2 (by rw [contents, hT]; rfl), ?_⟩
    rw [if_neg hne, tags_contents, names_of_eq_some hT]
    rfl

/-! ## One call -/

/-- From a world, a call has a result that the index allows and leaves what it says. -/
def Obeys (R : σ → Contents → Prop) (s : Storage σ) (M : Index) (w : World σ) (c : Call) : Prop :=
  ∃ r, (c.act s).Ends w r (fun w' => R w'.state (M.step c).contents) ∧ M.Answers c r

section Calls
variable {s : Storage σ} {R : σ → Contents → Prop} {M : Index} {w : World σ}

variable (hs : s.ActsAsMap R) (hw : R w.state M.contents)
include hs hw

/-! What the operations do, by the index. -/

theorem set_ends (id : String) (entries : List Value) :
    (Store.set s id entries).Ends w
      (if entries.all Tag.isValid then .ok ()
        else .error (Tag.refusal (entries.filter fun v => !Tag.isValid v)))
      fun w' => R w'.state (M.step (.set id entries)).contents := by
  by_cases hv : ∀ v ∈ entries, Tag.isValid v = true
  · have hall : entries.all Tag.isValid = true := List.all_eq_true.2 hv
    obtain ⟨names, rfl, hn⟩ := Tag.exists_names hv
    rw [if_pos hall, step, if_pos hall, contents_update, Record.texts_ofNames,
      TagSet.names_ofNames? hn]
    exact Store.set_held hs hw id hn
  · have hall : ¬ entries.all Tag.isValid = true := fun h => hv (List.all_eq_true.1 h)
    rw [if_neg hall, step, if_neg hall]
    exact Store.set_invalid hw hv

theorem clear_ends (id : String) :
    (Store.clear s id).Ends w (.ok ()) fun w' => R w'.state (M.step (.clear id)).contents := by
  rw [step, contents_update]
  exact Store.clear_held hs hw id

theorem rename_ends (old new : String) :
    (Store.rename s old new).Ends w (.ok (decide (old ≠ new) && (M old).isSome))
      fun w' => R w'.state (M.step (.rename old new)).contents := by
  have hv := Store.serving_none hw
  by_cases hne : old = new
  · subst hne
    rw [decide_eq_false (not_not_intro rfl), Bool.false_and]
    refine (Store.rename_self hv).imp fun w' hw' => ?_
    rw [step, if_pos (.inl rfl)]
    exact hw'.1
  cases hM : M old with
  | none =>
    have ht : M.contents.tags old = [] := tags_contents_eq_nil.2 (by rw [hM]; rfl)
    rw [Option.isSome_none, Bool.and_false]
    refine (Store.rename_untagged hs.serves hv hne rfl ht).imp fun w' hw' => ?_
    rw [step, if_pos (.inr (by rw [hM]; rfl))]
    exact hw'.1
  | some T =>
    have ht : M.contents.tags old = T.names := by rw [tags_contents, names_of_eq_some hM]
    rw [decide_eq_true hne, Option.isSome_some, Bool.and_true]
    -- Nothing fails, so the four calls of a move are all that are made.
    have hmove := Store.rename_tagged hs.serves hv hne rfl (ht ▸ T.ne_nil) fun w₁ h₁ =>
      Store.move_given (Store.give_ends hs.serves h₁ rfl (ht ▸ T.valid) rfl)
        fun w₂ h₂ => Store.complete_ends hs.serves h₂ new _ rfl
    refine hmove.imp fun w' hw' => ?_
    rw [step, if_neg (by rw [hM]; exact fun h => h.elim hne Bool.false_ne_true), contents_update,
      contents_update, hM]
    rw [ht, eraseDups_of_nodup T.nodup, Storage.recordFor, if_neg T.ne_nil] at hw'
    exact hw'.1

theorem get_ends (id : String) :
    (Store.get s id).Ends w (.ok (Record.ofNames (M.names id)))
      fun w' => R w'.state M.contents := by
  rw [← tags_contents]
  exact Store.get_held hs hw id

theorem obeys_set (id : String) (entries : List Value) : Obeys R s M w (.set id entries) := by
  have h := set_ends hs hw id entries
  by_cases hall : entries.all Tag.isValid = true
  · rw [if_pos hall] at h
    exact ⟨.ok .done, h.bind fun w' hw' => Action.ends_pure hw', by rw [Answers, if_pos hall]⟩
  · rw [if_neg hall] at h
    exact ⟨_, h.bind_error, by rw [Answers, if_neg hall]⟩

theorem obeys_clear (id : String) : Obeys R s M w (.clear id) :=
  ⟨.ok .done, (clear_ends hs hw id).bind fun _ => Action.ends_pure, rfl⟩

theorem obeys_rename (old new : String) : Obeys R s M w (.rename old new) :=
  ⟨_, (rename_ends hs hw old new).bind fun _ => Action.ends_pure, rfl⟩

theorem obeys_get (id : String) : Obeys R s M w (.get id) := by
  refine ⟨_, (get_ends hs hw id).bind fun w' hw' => Action.ends_pure hw', ?_⟩
  rw [Answers, names]
  cases M id with
  | none => rfl
  | some T => rfl

theorem obeys_items : Obeys R s M w .items := by
  obtain ⟨keys, hk, h⟩ := Store.items_listed hs hw
  refine ⟨_, h.bind fun w' hw' => Action.ends_pure hw', _, rfl, ?_, mem_tagged hk⟩
  rw [Contents.keys_tagged]
  exact hk.nodup.filter _

theorem obeys_identities : Obeys R s M w .identities := by
  obtain ⟨ids, hnodup, hids, h⟩ := Store.identities_listed hs hw
  refine ⟨_, h.bind fun w' hw' => Action.ends_pure hw', _, rfl, hnodup, fun id => ?_⟩
  rw [hids, ne_eq, tags_contents_eq_nil]
  cases M id <;> simp

/-- **One call obeys the index**, whichever it is. -/
theorem obeys (c : Call) : Obeys R s M w c := by
  cases c with
  | set id entries => exact obeys_set hs hw id entries
  | clear id => exact obeys_clear hs hw id
  | rename old new => exact obeys_rename hs hw old new
  | get id => exact obeys_get hs hw id
  | items => exact obeys_items hs hw
  | identities => exact obeys_identities hs hw

/-- A session that starts with what an index says follows that index. -/
theorem follows_session (calls : List Call) : M.Follows R (Store.session s w calls) := by
  -- The rest of a session starts from the world and the index that its first call leaves.
  induction calls generalizing M w with
  | nil => trivial
  | cons c calls ih =>
    obtain ⟨r, ⟨hr, hheld⟩, ha⟩ := obeys hs hw c
    refine ⟨?_, ⟨hheld, wellFormed_contents _⟩, ih hheld⟩
    show M.Answers c ((c.act s).runFrom w).1
    rw [hr]
    exact ha

end Calls

end Index

namespace Store

open Function (update)

variable {σ : Type} {s : Storage σ} {R : σ → Storage.Contents → Prop} {w : World σ}
  {m : Storage.Contents}

/-- **The store is an index.**  Over a storage that acts as a map, and from records as the store
writes them, every session of calls follows the index that those records are. -/
theorem session_follows (hs : s.ActsAsMap R) (hw : R w.state m) (hm : m.WellFormed)
    (calls : List Call) :
    ∃ M : Index, M.contents = m ∧ M.Follows R (session s w calls) := by
  obtain ⟨M, rfl⟩ := Index.exists_of_wellFormed hm
  exact ⟨M, rfl, Index.follows_session hs hw calls⟩

/-- Two tags of one identity are carried over another, a wrong name is refused, and what is left is
listed and cleared. -/
theorem session_follows_in_memory :
    let m : Storage.Contents := update (update (fun _ => none) "a" (some ["x", "y"])) "b" (some ["z"])
    let t : Storage.Table :=
      [("a", Record.ofNames ["x", "y"]), ("b", Record.ofNames ["z"])]
    Storage.Holds t m ∧ m.WellFormed ∧ ∃ M : Index, M.contents = m ∧
      M.Follows Storage.Holds (session Storage.memory ⟨t, Log.start 0⟩
        [.rename "a" "b", .set "b" [.text "p q", .text "r"], .items, .clear "b", .identities]) := by
  have hw := (Storage.holds_nil.put "a" ["x", "y"]).put "b" ["z"]
  have hm : Storage.Contents.WellFormed
      (update (update (fun _ => none) "a" (some ["x", "y"])) "b" (some ["z"])) := by
    intro id names h
    by_cases hb : id = "b"
    · rw [hb, Function.update_self] at h
      cases h
      decide
    by_cases ha : id = "a"
    · rw [Function.update_of_ne hb, ha, Function.update_self] at h
      cases h
      decide
    · rw [Function.update_of_ne hb, Function.update_of_ne ha] at h
      cases h
  exact ⟨hw, hm, session_follows Storage.memory_actsAsMap (w := ⟨_, Log.start 0⟩) hw hm _⟩

end Store

end FileTags
