import FileTags.Proofs.Actions
import FileTags.Proofs.Storage.Contents
import FileTags.Proofs.Store.Parallel
/-! # Storages that are watched

What an operation of the store does to its storage shows in the calls that it makes.  A watched
storage acts as the one inside and notes of each call what it failed with, if it failed, and the
state that it left; a watched probe notes what it was asked and what it said.  Nothing reads these
notes, so watching changes nothing (`Mirrors`): an operation has the same result as without it, and
leaves the same storage and the same log.

`Reports` says that an action swallows no failure: it ends with the failure of a call as soon as one
of its calls fails.  A probe is asked over the storage inside, so its calls are not noted as calls of
the sweep that asks it.
-/
namespace FileTags

namespace Storage

variable {σ α : Type}

/-- A storage inside, and what was noted of the calls so far. -/
structure Watched (σ : Type) where
  inner : σ
  /-- The states that calls have left, the last one first. -/
  visited : List σ
  /-- What calls have failed with, the last one first. -/
  failures : List Failure
  /-- The identities that a probe was asked about, with what it said, the last one first. -/
  asked : List (String × Except Failure Bool)

/-- The failure of a result, if it is one. -/
def failureOf : Except Failure α → List Failure
  | .ok _ => []
  | .error f => [f]

/-- A call that is noted. -/
def watchCall (call : Action σ α) : Action (Watched σ) α := .ofRun fun t =>
  let out := call.runFrom t.inner
  (out.1, { t with
    inner := out.2
    visited := out.2 :: t.visited
    failures := failureOf out.1 ++ t.failures })

/-- The storage whose calls are noted. -/
def watched (s : Storage σ) : Storage (Watched σ) where
  read k := watchCall (s.read k)
  write k r := watchCall (s.write k r)
  delete k := watchCall (s.delete k)
  keys := watchCall s.keys
  close := watchCall s.close

theorem watchCall_ends {call : Action σ α} {t : Watched σ} {r : Except Failure α} {Q : σ → Prop}
    (h : call.Ends t.inner r Q) :
    (watchCall call).Ends t r fun t' => Q t'.inner ∧ t'.asked = t.asked :=
  ⟨h.1, h.2, rfl⟩

/-- **A watched storage serves what the one inside serves**, and asks no probe. -/
theorem Serves.watched {s : Storage σ} {V : σ → Contents → Faults → Prop} (hs : s.Serves V)
    (asked : List (String × Except Failure Bool)) :
    (watched s).Serves fun t m f => V t.inner m f ∧ t.asked = asked where
  read := by
    rintro t m f k ⟨h, rfl⟩ hf
    exact watchCall_ends (hs.read h hf)
  read_fails := by
    rintro t m f k ⟨h, rfl⟩ hf
    exact watchCall_ends (hs.read_fails h hf)
  write := by
    rintro t m f k names ⟨h, rfl⟩ hf
    exact watchCall_ends (hs.write names h hf)
  write_fails := by
    rintro t m f k names ⟨h, rfl⟩ hf
    exact watchCall_ends (hs.write_fails names h hf)
  delete := by
    rintro t m f k ⟨h, rfl⟩ hf
    exact watchCall_ends (hs.delete h hf)
  delete_fails := by
    rintro t m f k ⟨h, rfl⟩ hf
    exact watchCall_ends (hs.delete_fails h hf)

/-- **A watched storage acts as the map that the one inside acts as**, and asks no probe. -/
theorem ActsAsMap.watched {s : Storage σ} {R : σ → Contents → Prop} (hs : s.ActsAsMap R)
    (asked : List (String × Except Failure Bool)) :
    (watched s).ActsAsMap fun t m => R t.inner m ∧ t.asked = asked where
  read := by
    rintro t m k ⟨h, rfl⟩
    exact watchCall_ends (hs.read k h)
  write := by
    rintro t m k names ⟨h, rfl⟩
    exact watchCall_ends (hs.write k names h)
  delete := by
    rintro t m k ⟨h, rfl⟩
    exact watchCall_ends (hs.delete k h)
  keys := by
    rintro t m ⟨h, rfl⟩
    obtain ⟨ks, hlists, hends⟩ := hs.keys h
    exact ⟨ks, hlists, watchCall_ends hends⟩

end Storage

namespace World

open Storage (Watched)

variable {σ : Type}

/-- A world whose storage is watched from now on. -/
def watching (w : World σ) : World (Watched σ) := ⟨⟨w.state, [], [], []⟩, w.log⟩

/-- The world without what was noted. -/
def unwatched (w : World (Watched σ)) : World σ := ⟨w.state.inner, w.log⟩

end World

namespace Store

open FileTags.Action FileTags.Storage

variable {σ α β : Type}

/-- A probe over the storage inside that notes what it was asked and what it said. -/
def watch (probe : Probe σ) : Probe (Watched σ) := fun id => .ofRun fun w =>
  let out := (probe id).runFrom w.unwatched
  (out.1, ⟨{ w.state with inner := out.2.state, asked := (id, out.1) :: w.state.asked }, out.2.log⟩)

/-! ## Watching changes nothing -/

/-- **An action over the watched storage does what another does over the storage inside.** -/
def Mirrors (act : Action (World (Watched σ)) α) (plain : Action (World σ) α) : Prop :=
  ∀ w, plain.runFrom w.unwatched = ((act.runFrom w).1, (act.runFrom w).2.unwatched)

/-- A watched world next to the world without what was noted. -/
abbrev Unwatches (w : World (Watched σ)) (plain : World σ) : Prop := plain = w.unwatched

theorem mirrors_of_parallel {act : Action (World (Watched σ)) α} {plain : Action (World σ) α}
    (h : Parallel Unwatches act plain) : Mirrors act plain := by
  intro w
  obtain ⟨hresult, hworld⟩ := h w w.unwatched rfl
  exact Prod.ext hresult.symm hworld

/-- The calls of the watched storage do what those of the one inside do. -/
theorem linked_watched (s : Storage σ) : Linked Unwatches (watched s) s where
  note _ _ _ := by
    rintro w _ rfl
    exact ⟨rfl, rfl⟩
  read _ := by
    rintro w _ rfl
    exact ⟨rfl, rfl⟩
  write _ _ := by
    rintro w _ rfl
    exact ⟨rfl, rfl⟩
  delete _ := by
    rintro w _ rfl
    exact ⟨rfl, rfl⟩
  keys := by
    rintro w _ rfl
    exact ⟨rfl, rfl⟩

theorem parallel_watch (probe : Probe σ) (id : String) :
    Parallel Unwatches (watch probe id) (probe id) := by
  rintro w _ rfl
  exact ⟨rfl, rfl⟩

/-! ## Failures that are not swallowed -/

/-- **An action swallows no failure**: no call fails, or the action ends with the failure of the only
call that does. -/
def Reports (act : Action (World (Watched σ)) α) : Prop :=
  ∀ w, (act.runFrom w).2.state.failures = w.state.failures ∨
    ∃ f, (act.runFrom w).1 = .error f ∧
      (act.runFrom w).2.state.failures = f :: w.state.failures

section Reports
variable {act : Action (World (Watched σ)) α}

theorem reports_pure (a : α) : Reports (pure a : Action (World (Watched σ)) α) :=
  fun _ => Or.inl rfl

theorem reports_ofExcept (r : Except Failure α) :
    Reports (Action.ofExcept r : Action (World (Watched σ)) α) := fun _ => Or.inl rfl

theorem reports_note {level : Level} {text : String} :
    Reports (note level text : Action (World (Watched σ)) Unit) := fun _ => Or.inl rfl

theorem reports_call (call : Action σ α) : Reports (World.onState (watchCall call)) := by
  intro w
  have hresult : ((World.onState (watchCall call)).runFrom w).1 = (call.runFrom w.state.inner).1 :=
    rfl
  have hfailures : ((World.onState (watchCall call)).runFrom w).2.state.failures =
      failureOf (call.runFrom w.state.inner).1 ++ w.state.failures := rfl
  rw [hresult, hfailures]
  cases (call.runFrom w.state.inner).1 with
  | ok a => exact Or.inl rfl
  | error f => exact Or.inr ⟨f, rfl, rfl⟩

/-- As long as no call has failed, the next action goes on; the first that fails ends the whole. -/
theorem Reports.bind {next : α → Action (World (Watched σ)) β} (h : Reports act)
    (hn : ∀ a, Reports (next a)) : Reports (act >>= next) := by
  intro w
  rw [runFrom_bind]
  have hw := h w
  rcases hr : act.runFrom w with ⟨f | a, w'⟩
  · rw [hr] at hw
    rcases hw with hsame | ⟨f', hf, hfailed⟩
    · exact Or.inl hsame
    · cases hf
      exact Or.inr ⟨f, rfl, hfailed⟩
  · rw [hr] at hw
    rcases hw with hsame | ⟨f', hf, -⟩
    · have hnext := hn a w'
      rw [← hsame]
      exact hnext
    · cases hf

/-- What comes of a question is not a call of whoever asks. -/
theorem reports_watch_attempt (probe : Probe σ) (id : String)
    {next : Except Failure Bool → Action (World (Watched σ)) β} (hn : ∀ r, Reports (next r)) :
    Reports ((watch probe id).attempt >>= next) := by
  intro w
  rw [runFrom_bind, runFrom_attempt]
  exact hn ((watch probe id).runFrom w).1 ((watch probe id).runFrom w).2

end Reports

end Store

end FileTags
