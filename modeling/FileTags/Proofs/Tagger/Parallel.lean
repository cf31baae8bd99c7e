import FileTags.Proofs.Store.Parallel
import FileTags.Tagger
/-! # Taggers side by side

A tagger asks its storage only through the store.  So two taggers over linked storages, in the same
surroundings and with the same settings, do the same request by request: their results are the same
and their worlds stay linked, whatever it is that links them.
-/
namespace FileTags.Tagger

open FileTags.Action FileTags.Storage

variable {σ τ : Type} {L : World σ → World τ → Prop} {s : Storage σ} {s' : Storage τ}
  (h : Linked L s s') (S : Surroundings) (sweeps : Bool) (isAlive : String → Except Failure Bool)
include h

theorem parallel_note (level : Level) (text : String) :
    Parallel L (note level text) (note level text) := h.note level logger text

theorem parallel_get (id : String) :
    Parallel L (get ⟨s, S, sweeps, isAlive⟩ id) (get ⟨s', S, sweeps, isAlive⟩ id) :=
  (parallel_ofExcept _).bind fun identity => (Store.parallel_get h identity).map _

/-- After a change it is told of, and the file is read back. -/
theorem parallel_noted (level : Level) (text id : String) :
    Parallel L
      (do
        note level text
        get ⟨s, S, sweeps, isAlive⟩ id)
      (do
        note level text
        get ⟨s', S, sweeps, isAlive⟩ id) :=
  (parallel_note h level text).bind fun _ => parallel_get h S sweeps isAlive id

/-- Tags are put in place of those that are there, and the file is read back. -/
theorem parallel_put (identity : String) (entries : List Value) :
    Parallel L
      (do
        Store.set s identity entries
        let text ← Action.ofExcept (joined (← Action.ofExcept (Tag.dedupe entries)))
        note .info ("Tagged " ++ identity ++ ": " ++ text)
        get ⟨s, S, sweeps, isAlive⟩ identity)
      (do
        Store.set s' identity entries
        let text ← Action.ofExcept (joined (← Action.ofExcept (Tag.dedupe entries)))
        note .info ("Tagged " ++ identity ++ ": " ++ text)
        get ⟨s', S, sweeps, isAlive⟩ identity) := by
  refine (Store.parallel_set h identity entries).bind fun _ => (parallel_ofExcept _).bind fun _ => ?_
  exact (parallel_ofExcept _).bind fun _ => parallel_noted h S sweeps isAlive _ _ _

theorem parallel_tag (id : String) (tags : Value) (replace : Bool) :
    Parallel L (tag ⟨s, S, sweeps, isAlive⟩ id tags replace)
      (tag ⟨s', S, sweeps, isAlive⟩ id tags replace) := by
  refine (parallel_ofExcept _).bind fun identity => (parallel_ofExcept _).bind fun given => ?_
  cases replace with
  | true => exact parallel_put h S sweeps isAlive identity given
  | false =>
    dsimp only
    rw [if_neg Bool.false_ne_true, if_neg Bool.false_ne_true, map_eq_pure_bind, map_eq_pure_bind,
      bind_assoc, bind_assoc]
    refine (Store.parallel_get h identity).bind fun current => ?_
    rw [pure_bind, pure_bind]
    exact parallel_put h S sweeps isAlive identity _

theorem parallel_untag (id : String) (tags : Option Value) :
    Parallel L (untag ⟨s, S, sweeps, isAlive⟩ id tags) (untag ⟨s', S, sweeps, isAlive⟩ id tags) := by
  refine (parallel_ofExcept _).bind fun identity => ?_
  cases tags with
  | none =>
    exact (Store.parallel_clear h identity).bind fun _ => parallel_noted h S sweeps isAlive _ _ _
  | some v =>
    refine (parallel_ofExcept _).bind fun removed => (Store.parallel_get h identity).bind fun _ => ?_
    refine (Store.parallel_set h identity _).bind fun _ => (parallel_ofExcept _).bind fun _ => ?_
    exact (parallel_ofExcept _).bind fun _ => parallel_noted h S sweeps isAlive _ _ _

theorem parallel_renamed (old new : String) :
    Parallel L (renamed ⟨s, S, sweeps, isAlive⟩ old new)
      (renamed ⟨s', S, sweeps, isAlive⟩ old new) :=
  (parallel_ofExcept _).bind fun _ => (parallel_ofExcept _).bind fun _ =>
    Store.parallel_rename h _ _

theorem parallel_sweep :
    Parallel L (sweep ⟨s, S, sweeps, isAlive⟩) (sweep ⟨s', S, sweeps, isAlive⟩) :=
  Store.parallel_sweep h fun _ => parallel_ofExcept _

theorem parallel_files :
    Parallel L (files ⟨s, S, sweeps, isAlive⟩) (files ⟨s', S, sweeps, isAlive⟩) := by
  have hlisted : Parallel L (do
      let items ← Store.items s
      return (items.mergeSort fun a b => a.1 ≤ b.1).map fun item => TaggedFile.mk item.1 item.2)
    (do
      let items ← Store.items s'
      return (items.mergeSort fun a b => a.1 ≤ b.1).map fun item => TaggedFile.mk item.1 item.2) :=
    (Store.parallel_items h).map _
  cases sweeps with
  | true => exact (parallel_sweep h S true isAlive).bind fun _ => hlisted
  | false => exact hlisted

theorem parallel_tags :
    Parallel L (tags ⟨s, S, sweeps, isAlive⟩) (tags ⟨s', S, sweeps, isAlive⟩) := by
  refine (parallel_files h S sweeps isAlive).bind fun files => ?_
  dsimp only
  split
  · exact parallel_pure _
  · exact parallel_throw _

theorem parallel_find (query : String) :
    Parallel L (find ⟨s, S, sweeps, isAlive⟩ query) (find ⟨s', S, sweeps, isAlive⟩ query) := by
  rw [find, find]
  split
  · exact parallel_throw _
  · refine (parallel_files h S sweeps isAlive).bind fun files => ?_
    exact (parallel_note h _ _).bind fun _ => parallel_pure _

end FileTags.Tagger
