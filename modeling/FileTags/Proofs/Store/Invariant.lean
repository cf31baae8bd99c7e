import FileTags.Proofs.Store.Reporting
/-! # What the store keeps of its storage

A storage is safe for a property of its states (`Storage.Safe`) if its calls keep the property, as
long as whatever is written is the record of a set of tags; what it reads is such a record then, and
it fails as storages do.  The store never writes anything else, whatever its client asks for and
whichever calls fail: what a rename puts back was read from the storage before.  So every operation
keeps the property, and so does every program (`Program.keeps`).

A storage that acts as a map is safe for holding such records.  Making its calls fail, and watching
them, leave it safe; and a watched storage is safe for more, that the property has held after every call.
-/
namespace FileTags

namespace TagSet

/-- A record as the store has it in hand: an empty one, or that of a set of tags. -/
inductive IsRecord : Record → Prop where
  | empty : IsRecord []
  | tags (T : TagSet) : IsRecord T.record

theorem isEmpty_record (T : TagSet) : T.record.isEmpty = false := by
  rw [record, Record.isEmpty_ofNames, List.isEmpty_eq_false_iff]
  exact T.ne_nil

theorem dedupe_record (T : TagSet) : Tag.dedupe T.record = .ok T.record := by
  rw [record, Tag.dedupe_ofNames, eraseDups_of_nodup T.nodup]

/-- Entries that pass the check are the record of a set of tags, if there are any. -/
theorem isRecord_of_validateAll {entries : List Value} {tags : Record}
    (h : Tag.validateAll entries = .ok tags) : IsRecord tags := by
  by_cases hv : ∀ v ∈ entries, Tag.isValid v = true
  · obtain ⟨names, rfl, hn⟩ := Tag.exists_names hv
    rw [Tag.validateAll_ofNames hn] at h
    cases h
    cases names with
    | nil =>
      rw [List.eraseDups_nil]
      exact .empty
    | cons n ns =>
      exact .tags
        { names := (n :: ns).eraseDups
          ne_nil := mt eraseDups_eq_nil.1 (List.cons_ne_nil n ns)
          nodup := nodup_eraseDups _
          valid := fun k hk => hn k (List.mem_eraseDups.1 hk) }
  · rw [Tag.validateAll_invalid hv] at h
    cases h

end TagSet

namespace Storage

open Function (update)
open FileTags.Action

variable {σ α : Type} {s : Storage σ} {I : σ → Prop}

/-- What a call may come to: an answer with a property, or a failure of the storage. -/
def Answer (P : α → Prop) : Except Failure α → Prop
  | .ok a => P a
  | .error f => f.ofStorage = true

/-- Whatever is read is the record of a set of tags. -/
def IsTagged (record? : Option Record) : Prop :=
  ∀ record, record? = some record → ∃ T : TagSet, record = T.record

/-- **A storage is safe for a property of its states**: as long as records of tags are written. -/
structure Safe (s : Storage σ) (I : σ → Prop) : Prop where
  read : ∀ k, (s.read k).Keeps I (Answer IsTagged)
  write : ∀ k (T : TagSet), (s.write k T.record).Keeps I (Answer fun _ => True)
  delete : ∀ k, (s.delete k).Keeps I (Answer fun _ => True)
  keys : s.keys.Keeps I (Answer fun _ => True)

/-- The storage holds records as the store writes them. -/
def Recorded (R : σ → Contents → Prop) (t : σ) : Prop := ∃ m : Contents, R t m ∧ m.WellFormed

/-- A storage holds such records if it holds what some index says. -/
theorem recorded_iff {R : σ → Contents → Prop} {t : σ} :
    Recorded R t ↔ ∃ M : Index, R t M.contents := by
  constructor
  · rintro ⟨m, hm, hwell⟩
    obtain ⟨M, rfl⟩ := Index.exists_of_wellFormed hwell
    exact ⟨M, hm⟩
  · rintro ⟨M, hM⟩
    exact ⟨M.contents, hM, Index.wellFormed_contents M⟩

/-- **A storage that acts as a map is safe for holding records.** -/
theorem ActsAsMap.safe {R : σ → Contents → Prop} (hs : s.ActsAsMap R) : s.Safe (Recorded R) where
  read k := by
    intro t h
    obtain ⟨M, hM⟩ := recorded_iff.1 h
    obtain ⟨hr, hheld⟩ := hs.read k hM
    refine ⟨recorded_iff.2 ⟨M, hheld⟩, ?_⟩
    rw [hr]
    intro record hrecord
    obtain ⟨names, hnames, rfl⟩ := Option.map_eq_some_iff.1 hrecord
    obtain ⟨T, -, rfl⟩ := Option.map_eq_some_iff.1 hnames
    exact ⟨T, rfl⟩
  write k T := by
    intro t h
    obtain ⟨M, hM⟩ := recorded_iff.1 h
    obtain ⟨hr, hheld⟩ := hs.write k T.names hM
    refine ⟨recorded_iff.2 ⟨update M k (some T), ?_⟩, ?_⟩
    · rw [Index.contents_update]
      exact hheld
    · rw [TagSet.record, hr]
      trivial
  delete k := by
    intro t h
    obtain ⟨M, hM⟩ := recorded_iff.1 h
    obtain ⟨hr, hheld⟩ := hs.delete k hM
    refine ⟨recorded_iff.2 ⟨update M k none, ?_⟩, ?_⟩
    · rw [Index.contents_update]
      exact hheld
    · rw [hr]
      trivial
  keys := by
    intro t h
    obtain ⟨M, hM⟩ := recorded_iff.1 h
    obtain ⟨ks, -, hr, hheld⟩ := hs.keys hM
    refine ⟨recorded_iff.2 ⟨M, hheld⟩, ?_⟩
    rw [hr]
    trivial

/-! ## Storages around safe ones -/

section Faulty

/-- A plan whose failures are those of a storage. -/
def Faults.OfStorage (f : Faults) : Prop := ∀ act, (f.failure act).ofStorage = true

/-- The storage inside has a property, calls fail as storages do, and the keys that are listed are
its own. -/
structure Faulty.Sound (I : σ → Prop) (F : Faulty σ) : Prop where
  inner : I F.inner
  failures : F.faults.OfStorage
  listed : F.listed = none

theorem guardCall_listed (act : Act) (key : Option String) (F : Faulty σ) :
    ((guardCall act key).runFrom F).2.listed = F.listed := by
  show (if F.faults.failing act key then (_, _) else (_, _) : _ × Faulty σ).2.listed = F.listed
  cases F.faults.failing act key <;> rfl

theorem guardCall_keeps (I : σ → Prop) (act : Act) (key : Option String) :
    (guardCall act key).Keeps (Faulty.Sound I) (Answer fun _ => True) := by
  intro F h
  obtain ⟨hr, hinner, hfaults⟩ := guardCall_ends act key F
  refine ⟨⟨?_, ?_, ?_⟩, ?_⟩
  · rw [hinner]
    exact h.inner
  · rw [hfaults]
    exact h.failures
  · rw [guardCall_listed]
    exact h.listed
  · rw [hr]
    split
    · exact h.failures act
    · trivial

theorem inside_keeps {call : Action σ α} {S : Except Failure α → Prop} (h : call.Keeps I S) :
    (inside call).Keeps (Faulty.Sound I) S := by
  intro F hF
  obtain ⟨hinner, hresult⟩ := h F.inner hF.inner
  exact ⟨⟨hinner, hF.failures, hF.listed⟩, hresult⟩

/-- **Calls that fail leave a storage safe.** -/
theorem Safe.faulty (hs : s.Safe I) : (faulty s).Safe (Faulty.Sound I) where
  read k := (guardCall_keeps I _ _).bind (fun _ _ => inside_keeps (hs.read k)) fun _ h => h
  write k T := (guardCall_keeps I _ _).bind (fun _ _ => inside_keeps (hs.write k T)) fun _ h => h
  delete k := (guardCall_keeps I _ _).bind (fun _ _ => inside_keeps (hs.delete k)) fun _ h => h
  keys := by
    refine (guardCall_keeps I _ _).bind (fun _ _ => ?_) fun _ h => h
    refine (inside_keeps hs.keys).bind (fun real _ => ?_) fun _ h => h
    intro F hF
    exact ⟨hF, trivial⟩

end Faulty

/-- What has held all along: of the state, of every state that a call has left, and calls have
failed as storages do. -/
structure AllAlong (I : σ → Prop) (t : Watched σ) : Prop where
  inner : I t.inner
  visited : ∀ u ∈ t.visited, I u
  failures : ∀ f ∈ t.failures, f.ofStorage = true

theorem watchCall_keeps {call : Action σ α} {P : α → Prop} (h : call.Keeps I (Answer P)) :
    (watchCall call).Keeps (AllAlong I) (Answer P) := by
  rintro t ⟨hinner, hvisited, hfailures⟩
  obtain ⟨hi, hanswer⟩ := h t.inner hinner
  refine ⟨⟨hi, List.forall_mem_cons.2 ⟨hi, hvisited⟩, ?_⟩, hanswer⟩
  show ∀ f ∈ failureOf (call.runFrom t.inner).1 ++ t.failures, f.ofStorage = true
  refine List.forall_mem_append.2 ⟨?_, hfailures⟩
  cases hr : (call.runFrom t.inner).1 with
  | ok a => exact nofun
  | error f =>
    rw [hr] at hanswer
    exact List.forall_mem_singleton.2 hanswer

/-- **Watching leaves a storage safe**, for what has held all along. -/
theorem Safe.watched (hs : s.Safe I) : (watched s).Safe (AllAlong I) where
  read k := watchCall_keeps (hs.read k)
  write k T := watchCall_keeps (hs.write k T)
  delete k := watchCall_keeps (hs.delete k)
  keys := watchCall_keeps hs.keys

end Storage

namespace Store

open FileTags.Action FileTags.Storage

variable {σ α β : Type} {s : Storage σ} {I : σ → Prop}

/-! ## Actions that keep a property -/

/-- The action keeps a property of the storage's state, and its result has another. -/
abbrev Keeping (I : σ → Prop) (act : Action (World σ) α) (S : Except Failure α → Prop) : Prop :=
  act.Keeps (fun w => I w.state) S

/-- The action keeps a property of the storage's state. -/
abbrev Kept (I : σ → Prop) (act : Action (World σ) α) : Prop := Keeping I act fun _ => True

theorem kept_pure (a : α) : Kept I (pure a : Action (World σ) α) := keeps_pure trivial

theorem kept_throw (f : Failure) : Kept I (throw f : Action (World σ) α) := keeps_throw trivial

theorem kept_ofExcept (r : Except Failure α) :
    Kept I (Action.ofExcept r : Action (World σ) α) := keeps_ofExcept trivial

theorem kept_note {level : Level} {text : String} :
    Kept I (note level text : Action (World σ) Unit) := fun _ hi => ⟨hi, trivial⟩

/-- The next action has to keep it after every answer. -/
theorem kept_bind {act : Action (World σ) α} {next : α → Action (World σ) β}
    {S : Except Failure α → Prop} (h : Keeping I act S)
    (hn : ∀ a, S (.ok a) → Kept I (next a)) : Kept I (act >>= next) :=
  Keeps.bind h hn fun _ _ => trivial

/-- An answer of which nothing is said but that the store can have it in hand. -/
def HasRecord (r : Except Failure Record) : Prop :=
  ∀ record, r = .ok record → TagSet.IsRecord record

/-! ## Sweeps and programs

They are made of the calls of a client, so they keep what the calls keep. -/

/-- Whatever is made of the answer, the state is that after the action. -/
theorem kept_of_bind_pure {act : Action (World σ) α} {g : α → β}
    (h : Kept I (act >>= fun a => pure (g a))) : Kept I act := by
  intro w hi
  obtain ⟨hi', -⟩ := h w hi
  rw [runFrom_bind] at hi'
  rcases hr : act.runFrom w with ⟨f | a, w'⟩
  · rw [hr] at hi'
    exact ⟨hi', trivial⟩
  · rw [hr] at hi'
    exact ⟨hi', trivial⟩

section Calls
variable (hc : ∀ c : Call, Kept I (c.act s))
include hc

section Sweep
variable {probe : Probe σ} (hp : ∀ id, Kept I (probe id))
include hp

/-- A sweep keeps what its probe keeps. -/
theorem sweepEach_kept (ids : List String) : Kept I (sweepEach s probe ids) := by
  induction ids with
  | nil => exact kept_pure _
  | cons id ids ih =>
    refine (hp id).attempt_bind fun r _ => ?_
    cases r with
    | error f => exact kept_bind kept_note fun _ _ => ih
    | ok alive =>
      cases alive with
      | true => exact ih
      | false =>
        have hclear : Kept I (clear s id) := kept_of_bind_pure (hc (.clear id))
        exact kept_bind hclear fun _ _ => kept_bind ih fun _ _ => kept_pure _

theorem sweep_kept : Kept I (sweep s probe) := by
  have hids : Kept I (identities s) := kept_of_bind_pure (hc .identities)
  refine kept_bind hids fun ids _ => kept_bind (sweepEach_kept hc hp ids) fun removed _ => ?_
  split
  · exact kept_bind kept_note fun _ _ => kept_pure _
  · exact kept_pure _

end Sweep

/-- **A program keeps what every call keeps.** -/
theorem Program.keeps_of_calls (p : Program) : Kept I (p.run s) := by
  induction p with
  | answer b => exact kept_pure b
  | fail f => exact kept_throw f
  | call c next ih => exact (hc c).attempt_bind fun r _ => ih r
  | sweep probe next ihp ih => exact (sweep_kept hc ihp).attempt_bind fun r _ => ih r

end Calls

/-! ## Calls over a safe storage -/

section Safe
variable (hs : s.Safe I)
include hs

theorem read_keeping (id : String) : Keeping I (read s id) (Answer IsTagged) :=
  World.keeps_onState (hs.read id)

theorem write_kept (id : String) (T : TagSet) : Kept I (write s id T.record) :=
  (World.keeps_onState (hs.write id T)).imp fun _ _ => trivial

theorem delete_kept (id : String) : Kept I (delete s id) :=
  (World.keeps_onState (hs.delete id)).imp fun _ _ => trivial

theorem get_keeping (id : String) : Keeping I (get s id) HasRecord := by
  refine (read_keeping hs id).bind (fun record? h => keeps_ofExcept ?_) fun _ _ => nofun
  cases record? with
  | none =>
    intro record hr
    cases hr
    exact .empty
  | some record =>
    obtain ⟨T, rfl⟩ := h record rfl
    rw [Option.getD_some, TagSet.dedupe_record]
    intro record hr
    cases hr
    exact .tags T

theorem set_kept (id : String) (entries : List Value) : Kept I (set s id entries) := by
  have hv : HasRecord (Tag.validateAll entries) := fun _ h => TagSet.isRecord_of_validateAll h
  refine kept_bind (keeps_ofExcept hv) fun tags h => ?_
  cases h tags rfl with
  | empty => exact kept_bind (delete_kept hs id) fun _ _ => kept_note
  | tags T =>
    rw [T.isEmpty_record, if_neg Bool.false_ne_true]
    exact kept_bind (write_kept hs id T) fun _ _ => kept_note

theorem clear_kept (id : String) : Kept I (clear s id) := by
  refine kept_bind (delete_kept hs id) fun there _ => ?_
  split
  · exact kept_note
  · exact kept_pure _

theorem putBack_kept (id : String) {record : Record} (h : TagSet.IsRecord record) :
    Kept I (putBack s id record) := by
  cases h with
  | empty => exact kept_bind (delete_kept hs id) fun _ _ => kept_pure _
  | tags T =>
    rw [putBack, T.isEmpty_record, if_neg Bool.false_ne_true]
    exact write_kept hs id T

/-- What is put back is a record that was read. -/
theorem restore_kept (id : String) {previous : Option Record} (h : IsTagged previous) :
    Kept I (restore s id previous) := by
  have hrecord : TagSet.IsRecord (previous.getD []) := by
    cases previous with
    | none => exact .empty
    | some record =>
      obtain ⟨T, rfl⟩ := h record rfl
      exact .tags T
  refine (putBack_kept hs id hrecord).attempt_bind fun r _ => ?_
  cases r with
  | ok _ => exact kept_pure _
  | error f =>
    dsimp only
    split
    · exact kept_note
    · exact kept_throw f

theorem give_keeping (id : String) (tags : List Value) :
    Keeping I (give s id tags) fun r => ∀ previous, r = .ok previous → IsTagged previous := by
  refine (read_keeping hs id).bind (fun previous h => ?_) fun _ _ => nofun
  refine (set_kept hs id tags).bind (fun _ _ => keeps_pure ?_) fun _ _ => nofun
  intro previous' hp
  cases hp
  exact h

theorem complete_kept (old new : String) {previous : Option Record} (h : IsTagged previous) :
    Kept I (complete s old new previous) := by
  refine (delete_kept hs old).attempt_bind fun r _ => ?_
  cases r with
  | ok _ => exact kept_bind kept_note fun _ _ => kept_pure _
  | error f =>
    dsimp only
    split
    · exact kept_bind kept_note fun _ _ =>
        kept_bind (restore_kept hs new h) fun _ _ => kept_pure _
    · exact kept_throw f

theorem rename_kept (old new : String) : Kept I (rename s old new) := by
  rw [rename]
  split
  · exact kept_pure _
  · refine kept_bind (get_keeping hs old) fun tags _ => ?_
    split
    · exact kept_pure _
    · refine (give_keeping hs new tags).attempt_bind fun r h => ?_
      cases r with
      | ok previous => exact complete_kept hs old new (h previous rfl)
      | error f =>
        dsimp only
        split
        · exact kept_bind kept_note fun _ _ => kept_pure _
        · exact kept_throw f

theorem tagsOfEach_kept (ids : List String) : Kept I (tagsOfEach s ids) := by
  induction ids with
  | nil => exact kept_pure _
  | cons id ids ih =>
    exact kept_bind (get_keeping hs id) fun _ _ => kept_bind ih fun _ _ => kept_pure _

theorem items_kept : Kept I (items s) :=
  kept_bind (World.keeps_onState hs.keys) fun _ _ => tagsOfEach_kept hs _

theorem identities_kept : Kept I (identities s) :=
  kept_bind (items_kept hs) fun _ _ => kept_pure _

theorem call_kept (c : Call) : Kept I (c.act s) := by
  cases c with
  | set id entries => exact kept_bind (set_kept hs id entries) fun _ _ => kept_pure _
  | clear id => exact kept_bind (clear_kept hs id) fun _ _ => kept_pure _
  | rename old new => exact kept_bind (rename_kept hs old new) fun _ _ => kept_pure _
  | get id => exact kept_bind (get_keeping hs id) fun _ _ => kept_pure _
  | items => exact kept_bind (items_kept hs) fun _ _ => kept_pure _
  | identities => exact kept_bind (identities_kept hs) fun _ _ => kept_pure _

/-- **A program keeps what the storage is safe for.** -/
theorem Program.keeps (p : Program) : Kept I (p.run s) := p.keeps_of_calls (call_kept hs)

/-- So does a probe that is such a program, watched over a watched storage. -/
theorem watch_kept (probe : String → Program) (id : String) :
    Kept (AllAlong I) (watch (fun id => (probe id).run s) id) := by
  intro w h
  obtain ⟨hinner, -⟩ := Program.keeps hs (probe id) w.unwatched h.inner
  exact ⟨⟨hinner, h.visited, h.failures⟩, trivial⟩

end Safe

end Store

end FileTags
