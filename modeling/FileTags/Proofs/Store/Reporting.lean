import FileTags.Proofs.Storage.Watched
import FileTags.Proofs.Store.Index
/-! # Operations over a watched storage

Every operation of the store is put together from calls of its storage, and so are the programs that
a client can write with the operations (`Program`).  So over a watched storage each of them does what
it does over the storage inside (`Mirrors`).

All of them but a rename pass a failure of a call on (`Reports`): they have no attempt in them, apart
from the question of a sweep, whose calls are not the sweep's own.
-/
namespace FileTags

namespace Store

open FileTags.Action FileTags.Storage

/-- **What a client can do through the store alone**: operations, each chosen after the results of
those before it.  A client may pass over failures or fail itself.  It may sweep, with probes that are
clients of the store in their turn; each identity is asked for at most once in a sweep, so a probe
that remembers earlier questions is covered by the choice of a program for each identity. -/
inductive Program where
  | answer (b : Bool)
  | fail (f : Failure)
  | call (c : Call) (next : Except Failure Reply → Program)
  | sweep (probe : String → Program) (next : Except Failure (List String) → Program)

/-- Runs a program over a storage. -/
def Program.run {σ : Type} (s : Storage σ) : Program → Action (World σ) Bool
  | .answer b => pure b
  | .fail f => throw f
  | .call c next => do (next (← (c.act s).attempt)).run s
  | .sweep probe next => do (next (← (Store.sweep s fun id => (probe id).run s).attempt)).run s

/-! ## What operations do over a watched storage -/

section Parallel
variable {σ τ : Type} {L : World σ → World τ → Prop} {s : Storage σ} {s' : Storage τ}
  (h : Linked L s s')
include h

theorem parallel_call_act (c : Call) : Parallel L (c.act s) (c.act s') := by
  cases c with
  | set id entries => exact (parallel_set h id entries).bind fun _ => parallel_pure _
  | clear id => exact (parallel_clear h id).bind fun _ => parallel_pure _
  | rename old new => exact (parallel_rename h old new).map _
  | get id => exact (parallel_get h id).map _
  | items => exact (parallel_items h).map _
  | identities => exact (parallel_identities h).map _

/-- A program does the same over linked storages. -/
theorem Program.parallel (p : Program) : Parallel L (p.run s) (p.run s') := by
  induction p with
  | answer b => exact parallel_pure b
  | fail f => exact parallel_throw f
  | call c next ih => exact (parallel_call_act h c).attempt.bind ih
  | sweep probe next ihp ih => exact (parallel_sweep h ihp).attempt.bind ih

end Parallel

variable {σ : Type} (s : Storage σ)

theorem mirrors_identities : Mirrors (identities (watched s)) (identities s) :=
  mirrors_of_parallel (parallel_identities (linked_watched s))

theorem mirrors_sweep (probe : Probe σ) :
    Mirrors (sweep (watched s) (watch probe)) (sweep s probe) :=
  mirrors_of_parallel (parallel_sweep (linked_watched s) (parallel_watch probe))

theorem mirrors_call_act (c : Call) : Mirrors (c.act (watched s)) (c.act s) :=
  mirrors_of_parallel (parallel_call_act (linked_watched s) c)

/-- **A program over a watched storage does what it does over the storage inside.** -/
theorem Program.mirrors (p : Program) : Mirrors (p.run (watched s)) (p.run s) :=
  mirrors_of_parallel (p.parallel (linked_watched s))

/-! ## Failures of calls are passed on -/

theorem reports_get (id : String) : Reports (get (watched s) id) :=
  (reports_call (s.read id)).bind fun _ => reports_ofExcept _

theorem reports_set (id : String) (entries : List Value) :
    Reports (set (watched s) id entries) := by
  refine (reports_ofExcept _).bind fun tags => ?_
  split
  · exact (reports_call (s.delete id)).bind fun _ => reports_note
  · exact (reports_call (s.write id tags)).bind fun _ => reports_note

theorem reports_clear (id : String) : Reports (clear (watched s) id) := by
  refine (reports_call (s.delete id)).bind fun there => ?_
  split
  · exact reports_note
  · exact reports_pure _

theorem reports_tagsOfEach (ids : List String) : Reports (tagsOfEach (watched s) ids) := by
  induction ids with
  | nil => exact reports_pure _
  | cons id ids ih => exact (reports_get s id).bind fun _ => ih.bind fun _ => reports_pure _

theorem reports_items : Reports (items (watched s)) :=
  (reports_call s.keys).bind fun _ => reports_tagsOfEach s _

theorem reports_identities : Reports (identities (watched s)) :=
  (reports_items s).bind fun _ => reports_pure _

/-- Of the calls of a rename some are put right if they fail; all other calls report theirs. -/
theorem reports_call_act {c : Call} (h : ∀ old new, c ≠ .rename old new) :
    Reports (c.act (watched s)) := by
  cases c with
  | set id entries => exact (reports_set s id entries).bind fun _ => reports_pure _
  | clear id => exact (reports_clear s id).bind fun _ => reports_pure _
  | rename old new => exact absurd rfl (h old new)
  | get id => exact (reports_get s id).bind fun _ => reports_pure _
  | items => exact (reports_items s).bind fun _ => reports_pure _
  | identities => exact (reports_identities s).bind fun _ => reports_pure _

theorem reports_sweepEach (probe : Probe σ) (ids : List String) :
    Reports (sweepEach (watched s) (watch probe) ids) := by
  induction ids with
  | nil => exact reports_pure _
  | cons id ids ih =>
    refine reports_watch_attempt probe id fun r => ?_
    cases r with
    | error f => exact reports_note.bind fun _ => ih
    | ok alive =>
      cases alive with
      | true => exact ih
      | false => exact (reports_clear s id).bind fun _ => ih.bind fun _ => reports_pure _

theorem reports_sweep (probe : Probe σ) : Reports (sweep (watched s) (watch probe)) := by
  refine (reports_identities s).bind fun ids =>
    (reports_sweepEach s probe ids).bind fun removed => ?_
  split
  · exact reports_note.bind fun _ => reports_pure _
  · exact reports_pure _

end Store

end FileTags
