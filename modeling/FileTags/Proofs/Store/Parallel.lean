import FileTags.Proofs.Actions
import FileTags.Store
/-! # Operations side by side

All that the store knows of its storage are the results of calls.  So over two storages whose calls
go in parallel, from worlds that are linked in whatever way, every operation of the store does the
same (`Linked`): call by call the results are the same, hence the same calls are made, and the worlds
stay linked.
-/
namespace FileTags

open FileTags.Action

/-- **Two storages are linked**: their calls go in parallel, and messages keep worlds linked. -/
structure Storage.Linked {σ τ : Type} (L : World σ → World τ → Prop) (s : Storage σ)
    (s' : Storage τ) : Prop where
  note : ∀ level logger text,
    Parallel L (World.note level logger text) (World.note level logger text)
  read : ∀ k, Parallel L (World.onState (s.read k)) (World.onState (s'.read k))
  write : ∀ k record, Parallel L (World.onState (s.write k record)) (World.onState (s'.write k record))
  delete : ∀ k, Parallel L (World.onState (s.delete k)) (World.onState (s'.delete k))
  keys : Parallel L (World.onState s.keys) (World.onState s'.keys)

namespace Store

open FileTags.Storage

variable {σ τ : Type} {L : World σ → World τ → Prop} {s : Storage σ} {s' : Storage τ}
  (h : Linked L s s')
include h

theorem parallel_note (level : Level) (text : String) :
    Parallel L (note level text) (note level text) := h.note level logger text

theorem parallel_get (id : String) : Parallel L (get s id) (get s' id) :=
  (h.read id).bind fun _ => parallel_ofExcept _

theorem parallel_set (id : String) (entries : List Value) :
    Parallel L (set s id entries) (set s' id entries) := by
  refine (parallel_ofExcept _).bind fun tags => ?_
  by_cases hempty : tags.isEmpty
  · rw [if_pos hempty, if_pos hempty]
    exact (h.delete id).bind fun _ => parallel_note h _ _
  · rw [if_neg hempty, if_neg hempty]
    exact (h.write id tags).bind fun _ => parallel_note h _ _

theorem parallel_clear (id : String) : Parallel L (clear s id) (clear s' id) := by
  refine (h.delete id).bind fun there => ?_
  cases there with
  | true => exact parallel_note h _ _
  | false => exact parallel_pure _

theorem parallel_putBack (id : String) (record : Record) :
    Parallel L (putBack s id record) (putBack s' id record) := by
  rw [putBack, putBack]
  by_cases hempty : record.isEmpty
  · rw [if_pos hempty, if_pos hempty]
    exact (h.delete id).bind fun _ => parallel_pure _
  · rw [if_neg hempty, if_neg hempty]
    exact h.write id record

theorem parallel_restore (id : String) (previous : Option Record) :
    Parallel L (restore s id previous) (restore s' id previous) := by
  refine (parallel_putBack h id _).attempt.bind fun r => ?_
  cases r with
  | ok _ => exact parallel_pure _
  | error f =>
    dsimp only
    by_cases hstorage : f.ofStorage
    · rw [if_pos hstorage, if_pos hstorage]
      exact parallel_note h _ _
    · rw [if_neg hstorage, if_neg hstorage]
      exact parallel_throw f

theorem parallel_give (id : String) (tags : List Value) :
    Parallel L (give s id tags) (give s' id tags) :=
  (h.read id).bind fun _ => (parallel_set h id tags).bind fun _ => parallel_pure _

theorem parallel_complete (old new : String) (previous : Option Record) :
    Parallel L (complete s old new previous) (complete s' old new previous) := by
  refine (h.delete old).attempt.bind fun r => ?_
  cases r with
  | ok _ => exact (parallel_note h _ _).bind fun _ => parallel_pure _
  | error f =>
    dsimp only
    by_cases hstorage : f.ofStorage
    · rw [if_pos hstorage, if_pos hstorage]
      exact (parallel_note h _ _).bind fun _ =>
        (parallel_restore h new previous).bind fun _ => parallel_pure _
    · rw [if_neg hstorage, if_neg hstorage]
      exact parallel_throw f

theorem parallel_move (old new : String) (tags : List Value) :
    Parallel L (move s old new tags) (move s' old new tags) := by
  refine (parallel_give h new tags).attempt.bind fun r => ?_
  cases r with
  | ok previous => exact parallel_complete h old new previous
  | error f =>
    dsimp only
    by_cases hborne : f.ofTags || f.ofStorage
    · rw [if_pos hborne, if_pos hborne]
      exact (parallel_note h _ _).bind fun _ => parallel_pure _
    · rw [if_neg hborne, if_neg hborne]
      exact parallel_throw f

theorem parallel_rename (old new : String) : Parallel L (rename s old new) (rename s' old new) := by
  rw [rename, rename]
  by_cases hne : old = new
  · rw [if_pos hne, if_pos hne]
    exact parallel_pure _
  · rw [if_neg hne, if_neg hne]
    refine (parallel_get h old).bind fun tags => ?_
    by_cases hempty : tags.isEmpty
    · rw [if_pos hempty, if_pos hempty]
      exact parallel_pure _
    · rw [if_neg hempty, if_neg hempty]
      exact parallel_move h old new tags

theorem parallel_tagsOfEach (ids : List String) :
    Parallel L (tagsOfEach s ids) (tagsOfEach s' ids) := by
  induction ids with
  | nil => exact parallel_pure _
  | cons id ids ih =>
    exact (parallel_get h id).bind fun _ => ih.bind fun _ => parallel_pure _

theorem parallel_items : Parallel L (items s) (items s') :=
  h.keys.bind fun _ => parallel_tagsOfEach h _

theorem parallel_identities : Parallel L (identities s) (identities s') :=
  (parallel_items h).map _

section Sweep
variable {probe : Probe σ} {probe' : Probe τ} (hp : ∀ id, Parallel L (probe id) (probe' id))
include hp

theorem parallel_sweepEach (ids : List String) :
    Parallel L (sweepEach s probe ids) (sweepEach s' probe' ids) := by
  induction ids with
  | nil => exact parallel_pure _
  | cons id ids ih =>
    refine (hp id).attempt.bind fun r => ?_
    cases r with
    | error f => exact (parallel_note h _ _).bind fun _ => ih
    | ok alive =>
      cases alive with
      | true => exact ih
      | false => exact (parallel_clear h id).bind fun _ => ih.bind fun _ => parallel_pure _

theorem parallel_sweep : Parallel L (sweep s probe) (sweep s' probe') := by
  refine (parallel_identities h).bind fun ids =>
    (parallel_sweepEach h hp ids).bind fun removed => ?_
  by_cases hsome : (!removed.isEmpty) = true
  · rw [if_pos hsome, if_pos hsome]
    exact (parallel_note h _ _).bind fun _ => parallel_pure _
  · rw [if_neg hsome, if_neg hsome]
    exact parallel_pure _

end Sweep

end Store

end FileTags
