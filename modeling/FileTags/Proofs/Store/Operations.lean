import FileTags.Proofs.Storage.Contents
import FileTags.Store
/-! # What the operations of the store do

One statement for each operation of the store and each way it can go, over any storage that serves
its contents under faults (`Storage.Serves`): the result, what the storage holds afterwards, and how
the plan of faults has moved on.  Nothing after this module opens an operation again.
-/
namespace FileTags

namespace Storage

open Function (update)

/-- The storage holds the contents `m`, with the faults `f` to come. -/
def Serving {σ : Type} (V : σ → Contents → Faults → Prop) (m : Contents) (f : Faults)
    (w : World σ) : Prop := V w.state m f

/-- The tags of an identity in some contents: what its list has, each once. -/
def Contents.tags (m : Contents) (id : String) : List String := ((m id).getD []).eraseDups

/-- Only what has a record can have tags. -/
theorem Contents.isSome_of_tags_ne_nil {m : Contents} {id : String} (h : m.tags id ≠ []) :
    (m id).isSome = true := by
  by_contra hnone
  refine h ?_
  rw [Contents.tags, Option.not_isSome_iff_eq_none.1 hnone]
  exact List.eraseDups_nil

/-- What an identity holds for a list of names: for no names it has no record. -/
def recordFor (names : List String) : Option (List String) := if names = [] then none else some names

theorem getD_recordFor (names : List String) : (recordFor names).getD [] = names := by
  cases names <;> rfl

/-- The act that makes an identity hold a list of names. -/
def actFor (names : List String) : Act := if names = [] then .delete else .write

/-- The tagged identities among some, each with the record of its tags. -/
def Contents.tagged (m : Contents) (ids : List String) : List (String × Record) :=
  ids.filterMap fun id => if m.tags id = [] then none else some (id, Record.ofNames (m.tags id))

theorem Contents.tagged_cons (m : Contents) (id : String) (ids : List String) :
    m.tagged (id :: ids) =
      if m.tags id = [] then m.tagged ids
      else (id, Record.ofNames (m.tags id)) :: m.tagged ids := by
  by_cases h : m.tags id = []
  · simp only [tagged, List.filterMap_cons, h, if_true]
  · simp only [tagged, List.filterMap_cons, h, if_false]

theorem Contents.keys_tagged (m : Contents) (ids : List String) :
    (m.tagged ids).map Prod.fst = ids.filter fun id => m.tags id ≠ [] := by
  induction ids with
  | nil => rfl
  | cons id ids ih =>
    rw [Contents.tagged_cons]
    by_cases h : m.tags id = []
    · rw [if_pos h, ih, List.filter_cons_of_neg (by simpa using h)]
    · rw [if_neg h, List.map_cons, ih, List.filter_cons_of_pos (by simpa using h)]

theorem getD_ofNames (names? : Option (List String)) :
    (names?.map Record.ofNames).getD [] = Record.ofNames (names?.getD []) := by
  cases names? <;> rfl

end Storage

namespace Store

open Function (update)
open FileTags.Action FileTags.Storage
open Record (ofNames)

variable {σ : Type} {s : Storage σ} {V : σ → Contents → Faults → Prop} {w : World σ} {m : Contents}
  {f : Faults} {id : String}

/-! ## Single calls of the storage -/

theorem read_ends (hs : s.Serves V) (hw : Serving V m f w)
    (hf : f.failing .read (some id) = false) :
    (read s id).Ends w (.ok ((m id).map ofNames)) (Serving V m (f.counted .read)) :=
  World.ends_onState (hs.read hw hf)

theorem read_fails (hs : s.Serves V) (hw : Serving V m f w)
    (hf : f.failing .read (some id) = true) :
    (read s id).Ends w (.error (f.failure .read)) (Serving V m (f.counted .read)) :=
  World.ends_onState (hs.read_fails hw hf)

theorem write_ends (hs : s.Serves V) (hw : Serving V m f w) (names : List String)
    (hf : f.failing .write (some id) = false) :
    (write s id (ofNames names)).Ends w (.ok ())
      (Serving V (update m id (some names)) (f.counted .write)) :=
  World.ends_onState (hs.write names hw hf)

theorem write_fails (hs : s.Serves V) (hw : Serving V m f w) (names : List String)
    (hf : f.failing .write (some id) = true) :
    (write s id (ofNames names)).Ends w (.error (f.failure .write))
      (Serving V m (f.counted .write)) :=
  World.ends_onState (hs.write_fails names hw hf)

theorem delete_ends (hs : s.Serves V) (hw : Serving V m f w)
    (hf : f.failing .delete (some id) = false) :
    (delete s id).Ends w (.ok (m id).isSome)
      (Serving V (update m id none) (f.counted .delete)) :=
  World.ends_onState (hs.delete hw hf)

theorem delete_fails (hs : s.Serves V) (hw : Serving V m f w)
    (hf : f.failing .delete (some id) = true) :
    (delete s id).Ends w (.error (f.failure .delete)) (Serving V m (f.counted .delete)) :=
  World.ends_onState (hs.delete_fails hw hf)

theorem ends_note (level : Level) (text : String) (hw : Serving V m f w) :
    (note level text).Ends w (.ok ()) (Serving V m f) := ⟨rfl, hw⟩

/-! ## Getting, setting and clearing -/

theorem get_ends (hs : s.Serves V) (hw : Serving V m f w)
    (hf : f.failing .read (some id) = false) :
    (get s id).Ends w (.ok (ofNames (m.tags id))) (Serving V m (f.counted .read)) := by
  refine (read_ends hs hw hf).bind ?_
  intro w' hw'
  rw [getD_ofNames, Tag.dedupe_ofNames]
  exact ends_ofExcept _ hw'

theorem get_fails (hs : s.Serves V) (hw : Serving V m f w)
    (hf : f.failing .read (some id) = true) :
    (get s id).Ends w (.error (f.failure .read)) (Serving V m (f.counted .read)) :=
  (read_fails hs hw hf).bind_error

/-- Entries that are not all tags are refused before the storage is called. -/
theorem set_invalid {Q : World σ → Prop} {entries : List Value} (hw : Q w)
    (h : ¬ ∀ v ∈ entries, Tag.isValid v = true) :
    (set s id entries).Ends w (.error (Tag.refusal (entries.filter fun v => !Tag.isValid v)))
      Q := by
  rw [set, Tag.validateAll_invalid h]
  exact (ends_ofExcept _ hw).bind_error

/-- Setting tags keeps the first occurrences, in place of what was there; setting none takes the
record out. -/
theorem set_ends (hs : s.Serves V) (hw : Serving V m f w) {names : List String}
    (hv : ∀ n ∈ names, Tag.isName n = true) (hf : f.failing (actFor names) (some id) = false) :
    (set s id (ofNames names)).Ends w (.ok ())
      (Serving V (update m id (recordFor names.eraseDups)) (f.counted (actFor names))) := by
  rw [set, Tag.validateAll_ofNames hv]
  refine (ends_ofExcept _ hw).bind ?_
  intro w' hw'
  rw [Record.isEmpty_ofNames]
  -- The plan speaks of the act that the names call for, and so do the two cases.
  cases names with
  | nil =>
    refine (delete_ends hs hw' hf).bind ?_
    intro w'' hw''
    exact ends_note _ _ hw''
  | cons n ns =>
    rw [List.eraseDups_cons]
    refine (write_ends hs hw' _ hf).bind ?_
    intro w'' hw''
    exact ends_note _ _ hw''

theorem set_fails (hs : s.Serves V) (hw : Serving V m f w) {names : List String}
    (hv : ∀ n ∈ names, Tag.isName n = true) (hf : f.failing (actFor names) (some id) = true) :
    (set s id (ofNames names)).Ends w (.error (f.failure (actFor names)))
      (Serving V m (f.counted (actFor names))) := by
  rw [set, Tag.validateAll_ofNames hv]
  refine (ends_ofExcept _ hw).bind ?_
  intro w' hw'
  rw [Record.isEmpty_ofNames]
  cases names with
  | nil => exact (delete_fails hs hw' hf).bind_error
  | cons n ns =>
    rw [List.eraseDups_cons]
    exact (write_fails hs hw' _ hf).bind_error

theorem clear_ends (hs : s.Serves V) (hw : Serving V m f w)
    (hf : f.failing .delete (some id) = false) :
    (clear s id).Ends w (.ok ()) (Serving V (update m id none) (f.counted .delete)) := by
  refine (delete_ends hs hw hf).bind ?_
  intro w' hw'
  split
  · exact ends_note _ _ hw'
  · exact ends_pure hw'

theorem clear_fails (hs : s.Serves V) (hw : Serving V m f w)
    (hf : f.failing .delete (some id) = true) :
    (clear s id).Ends w (.error (f.failure .delete)) (Serving V m (f.counted .delete)) :=
  (delete_fails hs hw hf).bind_error

/-! ## Renaming

A rename is followed from its end: putting back, completing the move, moving, renaming. -/

theorem putBack_ends (hs : s.Serves V) (hw : Serving V m f w) {names : List String}
    (hf : f.failing (actFor names) (some id) = false) :
    (putBack s id (ofNames names)).Ends w (.ok ())
      (Serving V (update m id (recordFor names)) (f.counted (actFor names))) := by
  rw [putBack, Record.isEmpty_ofNames]
  cases names with
  | nil => exact (delete_ends hs hw hf).bind fun _ hw' => ends_pure hw'
  | cons n ns => exact write_ends hs hw _ hf

theorem putBack_fails (hs : s.Serves V) (hw : Serving V m f w) {names : List String}
    (hf : f.failing (actFor names) (some id) = true) :
    (putBack s id (ofNames names)).Ends w (.error (f.failure (actFor names)))
      (Serving V m (f.counted (actFor names))) := by
  rw [putBack, Record.isEmpty_ofNames]
  cases names with
  | nil => exact (delete_fails hs hw hf).bind_error
  | cons n ns => exact write_fails hs hw _ hf

/-- Putting back never fails: what the storage refuses is only reported. -/
theorem restore_ends (hs : s.Serves V) (hw : Serving V m f w)
    (hst : ∀ act, (f.failure act).ofStorage = true) {previous : Option (List String)}
    {names : List String} (hp : previous.getD [] = names) :
    (restore s id (previous.map ofNames)).Ends w (.ok ())
      (Serving V
        (if f.failing (actFor names) (some id) then m else update m id (recordFor names))
        (f.counted (actFor names))) := by
  rw [restore, getD_ofNames, hp]
  cases hf : f.failing (actFor names) (some id) with
  | false =>
    refine (putBack_ends hs hw hf).attempt.bind ?_
    intro w' hw'
    exact ends_pure hw'
  | true =>
    refine (putBack_fails hs hw hf).attempt.bind ?_
    intro w' hw'
    dsimp only
    rw [if_pos (hst _)]
    exact ends_note _ _ hw'

theorem complete_ends (hs : s.Serves V) (hw : Serving V m f w) {old : String} (new : String)
    (previous : Option Record) (hf : f.failing .delete (some old) = false) :
    (complete s old new previous).Ends w (.ok true)
      (Serving V (update m old none) (f.counted .delete)) := by
  refine (delete_ends hs hw hf).attempt.bind ?_
  intro w' hw'
  refine (ends_note _ _ hw').bind ?_
  intro w'' hw''
  exact ends_pure hw''

/-- If the old identity cannot give its record up, the new one is to get back what it had. -/
theorem complete_fails (hs : s.Serves V) (hw : Serving V m f w)
    (hst : ∀ act, (f.failure act).ofStorage = true) {old : String} (new : String)
    {previous : Option (List String)} {names : List String} (hp : previous.getD [] = names)
    (hf : f.failing .delete (some old) = true) :
    (complete s old new (previous.map ofNames)).Ends w (.ok false)
      (Serving V
        (if (f.counted .delete).failing (actFor names) (some new) then m
          else update m new (recordFor names))
        ((f.counted .delete).counted (actFor names))) := by
  refine (delete_fails hs hw hf).attempt.bind ?_
  intro w₁ h₁
  dsimp only
  rw [if_pos (hst _)]
  refine (ends_note _ _ h₁).bind ?_
  intro w₂ h₂
  refine (restore_ends hs h₂ hst hp).bind ?_
  intro w₃ h₃
  exact ends_pure h₃

section Give
variable {names : List String} (hs : s.Serves V) (hw : Serving V m f w)
include hs hw

theorem give_unread (tags : List Value) (hr : f.failing .read (some id) = true) :
    (give s id tags).Ends w (.error (f.failure .read)) (Serving V m (f.counted .read)) :=
  (read_fails hs hw hr).bind_error

variable (hr : f.failing .read (some id) = false)
include hr

theorem give_invalid {entries : List Value} (h : ¬ ∀ v ∈ entries, Tag.isValid v = true) :
    (give s id entries).Ends w (.error (Tag.refusal (entries.filter fun v => !Tag.isValid v)))
      (Serving V m (f.counted .read)) :=
  (read_ends hs hw hr).bind fun _ hw' => (set_invalid hw' h).bind_error

variable (hv : ∀ n ∈ names, Tag.isName n = true)
include hv

theorem give_unset (hf : (f.counted .read).failing (actFor names) (some id) = true) :
    (give s id (ofNames names)).Ends w (.error (f.failure (actFor names)))
      (Serving V m ((f.counted .read).counted (actFor names))) :=
  (read_ends hs hw hr).bind fun _ hw' => (set_fails hs hw' hv hf).bind_error

theorem give_ends (hf : (f.counted .read).failing (actFor names) (some id) = false) :
    (give s id (ofNames names)).Ends w (.ok ((m id).map ofNames))
      (Serving V (update m id (recordFor names.eraseDups))
        ((f.counted .read).counted (actFor names))) :=
  (read_ends hs hw hr).bind fun _ hw' => (set_ends hs hw' hv hf).bind fun _ => ends_pure

end Give

/-- Tags that cannot be given to the new identity are not moved. -/
theorem move_refused {old new : String} {tags : List Value} {e : Failure}
    (he : (e.ofTags || e.ofStorage) = true) (h : (give s new tags).Ends w (.error e) (Serving V m f)) :
    (move s old new tags).Ends w (.ok false) (Serving V m f) := by
  refine h.attempt.bind ?_
  intro w' hw'
  dsimp only
  rw [if_pos he]
  refine (ends_note _ _ hw').bind ?_
  intro w'' hw''
  exact ends_pure hw''

/-- Any other failure to give them is passed on. -/
theorem move_failed {old new : String} {tags : List Value} {e : Failure} {P : World σ → Prop}
    (he : (e.ofTags || e.ofStorage) = false) (h : (give s new tags).Ends w (.error e) P) :
    (move s old new tags).Ends w (.error e) P := by
  refine h.attempt.bind ?_
  intro w' hw'
  dsimp only
  rw [he, if_neg Bool.false_ne_true]
  exact ⟨rfl, hw'⟩

/-- Once the new identity has the tags, what is left is to complete the move. -/
theorem move_given {old new : String} {tags : List Value} {previous : Option Record}
    {r : Except Failure Bool} {P Q : World σ → Prop}
    (h : (give s new tags).Ends w (.ok previous) P)
    (hc : ∀ w', P w' → (complete s old new previous).Ends w' r Q) :
    (move s old new tags).Ends w r Q :=
  h.attempt.bind hc

section Rename
variable {old new : String} {r : Except Failure Bool} {Q : World σ → Prop} (hs : s.Serves V)
  (hw : Serving V m f w)
include hw

theorem rename_self : (rename s id id).Ends w (.ok false) (Serving V m f) := by
  rw [rename, if_pos rfl]
  exact ends_pure hw

variable (hne : old ≠ new)
include hs hne

theorem rename_unread (hf : f.failing .read (some old) = true) :
    (rename s old new).Ends w (.error (f.failure .read)) (Serving V m (f.counted .read)) := by
  rw [rename, if_neg hne]
  exact (get_fails hs hw hf).bind_error

variable (hr : f.failing .read (some old) = false)
include hr

theorem rename_untagged (ht : m.tags old = []) :
    (rename s old new).Ends w (.ok false) (Serving V m (f.counted .read)) := by
  rw [rename, if_neg hne]
  refine (get_ends hs hw hr).bind ?_
  intro w' hw'
  rw [ht, Record.isEmpty_ofNames, if_pos List.isEmpty_nil]
  exact ends_pure hw'

/-- An identity with tags has them moved, after the one read. -/
theorem rename_tagged (ht : m.tags old ≠ [])
    (hm : ∀ w', Serving V m (f.counted .read) w' →
      (move s old new (ofNames (m.tags old))).Ends w' r Q) :
    (rename s old new).Ends w r Q := by
  rw [rename, if_neg hne]
  refine (get_ends hs hw hr).bind ?_
  intro w' hw'
  rw [Record.isEmpty_ofNames, if_neg (by rwa [List.isEmpty_iff])]
  exact hm w' hw'

end Rename

/-! ## Listing -/

/-- While nothing fails, going through some identities gives the tagged ones in order. -/
theorem tagsOfEach_ends (hs : s.Serves V) (hw : Serving V m f w) (hn : f.Never)
    (ids : List String) :
    (tagsOfEach s ids).Ends w (.ok (m.tagged ids))
      (fun w' => ∃ f', f'.Never ∧ Serving V m f' w') := by
  -- Each read moves the plan on, so the induction is for every plan that never fails.
  induction ids generalizing w f with
  | nil => exact ends_pure ⟨f, hn, hw⟩
  | cons id ids ih =>
    refine (get_ends hs hw (hn.failing ..)).bind ?_
    intro w' hw'
    refine (ih hw' (hn.counted _)).bind ?_
    intro w'' hw''
    rw [Contents.tagged_cons, Record.isEmpty_ofNames]
    simp only [List.isEmpty_iff]
    exact ends_pure hw''

theorem items_ends (hs : s.Serves V) (hn : f.Never) {keys : List String}
    (hk : s.keys.Ends w.state (.ok keys) (V · m f)) :
    (items s).Ends w (.ok (m.tagged keys.eraseDups))
      (fun w' => ∃ f', f'.Never ∧ Serving V m f' w') := by
  refine (World.ends_onState hk).bind ?_
  intro w' hw'
  rw [Tag.dedupeBy_eq_eraseDups]
  exact tagsOfEach_ends hs hw' hn _

/-! ## Storages that never fail

A storage that acts as a map serves its contents under the plan without faults, so each operation ends
as it does when nothing fails. -/

section Map
variable {R : σ → Contents → Prop}

/-- The plan without faults, from a state that holds some contents. -/
theorem serving_none (hw : R w.state m) :
    Serving (fun t m f => R t m ∧ f.Never) m .none w := ⟨hw, Faults.never_none⟩

variable (hs : s.ActsAsMap R) (hw : R w.state m)
include hs hw

theorem get_held (id : String) :
    (get s id).Ends w (.ok (ofNames (m.tags id))) fun w' => R w'.state m :=
  (get_ends hs.serves (serving_none hw) rfl).imp fun _ hw' => hw'.1

theorem set_held (id : String) {names : List String} (hv : ∀ n ∈ names, Tag.isName n = true) :
    (set s id (ofNames names)).Ends w (.ok ())
      fun w' => R w'.state (update m id (recordFor names.eraseDups)) :=
  (set_ends hs.serves (serving_none hw) hv rfl).imp fun _ hw' => hw'.1

theorem clear_held (id : String) :
    (clear s id).Ends w (.ok ()) fun w' => R w'.state (update m id none) :=
  (clear_ends hs.serves (serving_none hw) rfl).imp fun _ hw' => hw'.1

/-- Over a storage that acts as a map listing gives what is tagged under its keys. -/
theorem items_listed : ∃ keys, m.Lists keys ∧
    (items s).Ends w (.ok (m.tagged keys)) fun w' => R w'.state m := by
  obtain ⟨keys, hk, hends⟩ := hs.keys hw
  have h := items_ends hs.serves Faults.never_none
    (hends.imp fun t ht => ⟨ht, Faults.never_none⟩)
  rw [eraseDups_of_nodup hk.nodup] at h
  refine ⟨keys, hk, h.imp ?_⟩
  rintro w' ⟨f', -, hw'⟩
  exact hw'.1

/-- The identities with tags, each once. -/
theorem identities_listed : ∃ ids : List String, ids.Nodup ∧ (∀ id, id ∈ ids ↔ m.tags id ≠ []) ∧
    (identities s).Ends w (.ok ids) fun w' => R w'.state m := by
  obtain ⟨keys, hk, hends⟩ := items_listed hs hw
  refine ⟨_, ?_, fun id => ?_, hends.bind fun w' hw' => ends_pure hw'⟩
  · rw [Contents.keys_tagged]
    exact hk.nodup.filter _
  · rw [Contents.keys_tagged, List.mem_filter, decide_eq_true_iff]
    exact and_iff_right_of_imp fun hne => (hk.mem_iff id).2 (Contents.isSome_of_tags_ne_nil hne)

end Map

end Store

end FileTags
