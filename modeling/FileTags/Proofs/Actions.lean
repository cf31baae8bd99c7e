import FileTags.Action
/-! # How actions end

An action is a function from a state to a result and a state, so what it does from one state is
said by two facts: which result it ends with, and what is true of the state it leaves.  `Ends` says
both.  The lemmas below are one for each way of putting actions together; with them an operation of
the store is followed call by call, and no proof about it has to open the monad again.

Where any call may fail, `EndsUnless` says how the action ends if none does, and with what it fails if
one does.  Where it is not known which way an action goes, `Keeps` says what holds of every way: a
property of the state is kept, and the result, whichever it is, has another; `FailsOnly` is the case
where the other says which failures come out.  And `Parallel` compares two actions on states that need
not be of one kind: from linked states both have the same result and leave linked states.
-/
namespace FileTags

namespace Action

variable {σ τ α β : Type} {s : σ} {act : Action σ α} {next : α → Action σ β}
  {r : Except Failure α} {P Q : σ → Prop}

/-- From the state `s` the action ends with the result `r`, in a state of which `Q` holds. -/
def Ends (act : Action σ α) (s : σ) (r : Except Failure α) (Q : σ → Prop) : Prop :=
  (act.runFrom s).1 = r ∧ Q (act.runFrom s).2

theorem ends_iff : act.Ends s r Q ↔ ∃ s', act.runFrom s = (r, s') ∧ Q s' := by
  constructor
  · rintro ⟨hr, hq⟩
    exact ⟨_, Prod.ext hr rfl, hq⟩
  · rintro ⟨s', h, hq⟩
    exact ⟨by rw [h], by rw [h]; exact hq⟩

theorem Ends.imp (h : act.Ends s r P) (hpq : ∀ s', P s' → Q s') : act.Ends s r Q :=
  ⟨h.1, hpq _ h.2⟩

theorem ends_pure {a : α} (h : Q s) : (pure a : Action σ α).Ends s (.ok a) Q := ⟨rfl, h⟩

theorem ends_ofExcept (r : Except Failure α) (h : Q s) : (ofExcept r : Action σ α).Ends s r Q :=
  ⟨rfl, h⟩

/-- After an answer the next action goes on, from whatever state the first one left. -/
theorem Ends.bind {a : α} {r : Except Failure β} (h : act.Ends s (.ok a) P)
    (hn : ∀ s', P s' → (next a).Ends s' r Q) : (act >>= next).Ends s r Q := by
  obtain ⟨s', hs, hp⟩ := ends_iff.1 h
  obtain ⟨s'', hs', hq⟩ := ends_iff.1 (hn s' hp)
  refine ends_iff.2 ⟨s'', ?_, hq⟩
  rw [runFrom_bind, hs]
  exact hs'

/-- After a run that is known the next action goes on from where it ended. -/
theorem ends_bind_of_run {a : α} {s' : σ} {r : Except Failure β} (h : act.runFrom s = (.ok a, s'))
    (hn : (next a).Ends s' r Q) : (act >>= next).Ends s r Q := by
  refine Ends.bind (ends_iff.2 ⟨s', h, rfl⟩ : act.Ends s (.ok a) (· = s')) ?_
  rintro _ rfl
  exact hn

/-- After the state has been read the next action goes on from it. -/
theorem ends_get_bind {next : σ → Action σ β} {r : Except Failure β} (h : (next s).Ends s r Q) :
    (get >>= next).Ends s r Q := ends_bind_of_run rfl h

/-- A failure ends the whole. -/
theorem Ends.bind_error {f : Failure} (h : act.Ends s (.error f) Q) :
    (act >>= next).Ends s (.error f) Q := by
  obtain ⟨s', hs, hq⟩ := ends_iff.1 h
  exact ends_iff.2 ⟨s', by rw [runFrom_bind, hs], hq⟩

/-- What the next action comes to from whatever state the first one left, the whole comes to. -/
theorem Ends.bind_run {a : α} {C : Except Failure β × σ → Prop} (h : act.Ends s (.ok a) P)
    (hn : ∀ s', P s' → C ((next a).runFrom s')) : C ((act >>= next).runFrom s) := by
  obtain ⟨s', hs, hp⟩ := ends_iff.1 h
  rw [runFrom_bind, hs]
  exact hn s' hp

/-- If the whole answers, the first action has answered, and so has the next one after it. -/
theorem exists_of_bind_ok {b : β} {s'' : σ} (h : (act >>= next).runFrom s = (.ok b, s'')) :
    ∃ a s', act.runFrom s = (.ok a, s') ∧ (next a).runFrom s' = (.ok b, s'') := by
  rw [runFrom_bind] at h
  rcases hact : act.runFrom s with ⟨f | a, s'⟩
  · rw [hact] at h
    cases h
  · rw [hact] at h
    exact ⟨a, s', rfl, h⟩

/-- An attempt answers with the result, of whichever kind. -/
theorem Ends.attempt (h : act.Ends s r Q) : act.attempt.Ends s (.ok r) Q :=
  ⟨congrArg Except.ok h.1, h.2⟩

/-- An action on a part of a state leaves the rest as it was. -/
theorem Ends.zoom {get : τ → σ} {set : σ → τ → τ} {t : τ} (h : act.Ends (get t) r Q) :
    (act.zoom get set).Ends t r (fun t' => ∃ s', t' = set s' t ∧ Q s') := by
  obtain ⟨s', hs, hq⟩ := ends_iff.1 h
  refine ends_iff.2 ⟨set s' t, ?_, s', rfl, hq⟩
  show ((act.runFrom (get t)).1, set (act.runFrom (get t)).2 t) = _
  rw [hs]

/-! ## Ends that a failure can prevent -/

section EndsUnless
variable {F : Failure → Prop} {a : α} {b : β}

/-- From the state `s` the action ends with the answer `a`, in a state of which `Q` holds, unless it
fails with `F`. -/
def EndsUnless (act : Action σ α) (F : Failure → Prop) (s : σ) (a : α) (Q : σ → Prop) : Prop :=
  act.Ends s (.ok a) Q ∨ ∃ f, F f ∧ (act.runFrom s).1 = .error f

theorem Ends.endsUnless (h : act.Ends s (.ok a) Q) : act.EndsUnless F s a Q := .inl h

theorem EndsUnless.ends (h : act.EndsUnless (fun _ => False) s a Q) : act.Ends s (.ok a) Q :=
  h.resolve_right fun ⟨_, hf, _⟩ => hf

theorem EndsUnless.imp {F' : Failure → Prop} (h : act.EndsUnless F s a P)
    (hf : ∀ f, F f → F' f) (hpq : ∀ s', P s' → Q s') : act.EndsUnless F' s a Q := by
  rcases h with hends | ⟨f, hF, hfails⟩
  · exact .inl (hends.imp hpq)
  · exact .inr ⟨f, hf f hF, hfails⟩

/-- After an answer the next action goes on; a failure ends the whole. -/
theorem EndsUnless.bind (h : act.EndsUnless F s a P)
    (hn : ∀ s', P s' → (next a).EndsUnless F s' b Q) : (act >>= next).EndsUnless F s b Q := by
  rcases h with hends | ⟨f, hF, hfails⟩
  · exact hends.bind_run (C := fun out => out.1 = .ok b ∧ Q out.2 ∨ ∃ f, F f ∧ out.1 = .error f) hn
  · have hwhole : (act >>= next).Ends s (.error f) fun _ => True :=
      Ends.bind_error ⟨hfails, trivial⟩
    exact .inr ⟨f, hF, hwhole.1⟩

/-- An action on a part of a state leaves the rest as it was. -/
theorem EndsUnless.zoom {get : τ → σ} {set : σ → τ → τ} {t : τ} (h : act.EndsUnless F (get t) a Q) :
    (act.zoom get set).EndsUnless F t a fun t' => ∃ s', t' = set s' t ∧ Q s' :=
  h.imp_left Ends.zoom

end EndsUnless

/-! ## What is kept whichever way an action goes -/

section Keeps
variable {I : σ → Prop} {S : Except Failure α → Prop} {T : Except Failure β → Prop}

/-- From every state with `I` the action leaves a state with `I`, and its result has `S`. -/
def Keeps (I : σ → Prop) (act : Action σ α) (S : Except Failure α → Prop) : Prop :=
  ∀ s, I s → I (act.runFrom s).2 ∧ S (act.runFrom s).1

theorem Keeps.imp {S' : Except Failure α → Prop} (h : act.Keeps I S) (hs : ∀ r, S r → S' r) :
    act.Keeps I S' :=
  fun s hi => ⟨(h s hi).1, hs _ (h s hi).2⟩

theorem keeps_pure {a : α} (h : S (.ok a)) : (pure a : Action σ α).Keeps I S := fun _ hi => ⟨hi, h⟩

theorem keeps_throw {f : Failure} (h : S (.error f)) : (throw f : Action σ α).Keeps I S :=
  fun _ hi => ⟨hi, h⟩

theorem keeps_ofExcept (h : S r) : (ofExcept r : Action σ α).Keeps I S := fun _ hi => ⟨hi, h⟩

/-- The next action has to keep it after every answer; a failure is the result of both. -/
theorem Keeps.bind (h : act.Keeps I S) (hn : ∀ a, S (.ok a) → (next a).Keeps I T)
    (he : ∀ f, S (.error f) → T (.error f)) : (act >>= next).Keeps I T := by
  intro s hi
  obtain ⟨hi', hs⟩ := h s hi
  rw [runFrom_bind]
  rcases hr : act.runFrom s with ⟨f | a, s'⟩
  · rw [hr] at hi' hs
    exact ⟨hi', he _ hs⟩
  · rw [hr] at hi' hs
    exact hn _ hs s' hi'

/-- After an attempt the next action has to keep it for every result. -/
theorem Keeps.attempt_bind {next : Except Failure α → Action σ β} (h : act.Keeps I S)
    (hn : ∀ r, S r → (next r).Keeps I T) : (act.attempt >>= next).Keeps I T := by
  intro s hi
  obtain ⟨hi', hs⟩ := h s hi
  rw [runFrom_bind, runFrom_attempt]
  exact hn _ hs _ hi'

end Keeps

/-! ## Which failures come out -/

section FailsOnly
variable {F : Failure → Prop}

/-- A result that is no failure, or a failure with `F`. -/
def Failing (F : Failure → Prop) (r : Except Failure α) : Prop := ∀ f, r = .error f → F f

theorem failing_ok (a : α) : Failing F (.ok a) := fun _ h => nomatch h

theorem failing_error {f : Failure} (h : F f) : Failing F (.error f : Except Failure α) := by
  intro g hg
  rwa [← Except.error.inj hg]

theorem Failing.bind {g : α → Except Failure β} (h : Failing F r) (hg : ∀ a, Failing F (g a)) :
    Failing F (r >>= g) := by
  cases r with
  | error f => exact failing_error (h f rfl)
  | ok a => exact hg a

/-- **From every state the action fails with `F` only**, if it fails. -/
def FailsOnly (F : Failure → Prop) (act : Action σ α) : Prop := act.Keeps (fun _ => True) (Failing F)

theorem failsOnly_pure (a : α) : FailsOnly F (pure a : Action σ α) := keeps_pure (failing_ok a)

theorem failsOnly_throw {f : Failure} (h : F f) : FailsOnly F (throw f : Action σ α) :=
  keeps_throw (failing_error h)

theorem failsOnly_ofExcept (h : Failing F r) : FailsOnly F (ofExcept r : Action σ α) :=
  keeps_ofExcept h

theorem failsOnly_modify (g : σ → σ) : FailsOnly F (modify g : Action σ Unit) :=
  fun _ _ => ⟨trivial, failing_ok ()⟩

theorem failsOnly_get : FailsOnly F (get : Action σ σ) := fun s _ => ⟨trivial, failing_ok s⟩

theorem FailsOnly.bind (h : FailsOnly F act) (hn : ∀ a, FailsOnly F (next a)) :
    FailsOnly F (act >>= next) :=
  Keeps.bind h (fun a _ => hn a) fun f hf => failing_error (hf f rfl)

end FailsOnly

/-! ## Two actions side by side -/

section Parallel
variable {L : σ → τ → Prop} {act' : Action τ α} {next' : α → Action τ β}

/-- **Two actions go in parallel**: from linked states they have the same result, and they leave
linked states. -/
def Parallel (L : σ → τ → Prop) (act : Action σ α) (act' : Action τ α) : Prop :=
  ∀ s t, L s t → (act.runFrom s).1 = (act'.runFrom t).1 ∧ L (act.runFrom s).2 (act'.runFrom t).2

theorem parallel_pure (a : α) : Parallel L (pure a : Action σ α) (pure a : Action τ α) :=
  fun _ _ h => ⟨rfl, h⟩

theorem parallel_throw (f : Failure) : Parallel L (throw f : Action σ α) (throw f : Action τ α) :=
  fun _ _ h => ⟨rfl, h⟩

theorem parallel_ofExcept (r : Except Failure α) :
    Parallel L (ofExcept r : Action σ α) (ofExcept r : Action τ α) :=
  fun _ _ h => ⟨rfl, h⟩

theorem Parallel.bind (h : Parallel L act act') (hn : ∀ a, Parallel L (next a) (next' a)) :
    Parallel L (act >>= next) (act' >>= next') := by
  intro s t hlinked
  obtain ⟨hresult, hlinked'⟩ := h s t hlinked
  rw [runFrom_bind, runFrom_bind]
  rcases hs : act.runFrom s with ⟨r, s'⟩
  rcases ht : act'.runFrom t with ⟨r', t'⟩
  rw [hs, ht] at hresult hlinked'
  obtain rfl : r = r' := hresult
  cases r with
  | error f => exact ⟨rfl, hlinked'⟩
  | ok a => exact hn a s' t' hlinked'

theorem Parallel.attempt (h : Parallel L act act') : Parallel L act.attempt act'.attempt := by
  intro s t hlinked
  obtain ⟨hresult, hlinked'⟩ := h s t hlinked
  rw [runFrom_attempt, runFrom_attempt, hresult]
  exact ⟨rfl, hlinked'⟩

/-- From both sides of actions that only put the answer in another way, the answers come back. -/
theorem Parallel.map {γ : Type} (h : Parallel L act act') (g : α → γ) :
    Parallel L (act >>= fun a => pure (g a)) (act' >>= fun a => pure (g a)) :=
  h.bind fun _ => parallel_pure _

end Parallel

end Action

namespace World

variable {σ α : Type} {w : World σ} {act : Action σ α} {r : Except Failure α} {Q : σ → Prop}

/-- An action on the storage's state ends as it does alone. -/
theorem ends_onState (h : act.Ends w.state r Q) :
    (onState act).Ends w r (fun w' => Q w'.state) := by
  refine (Action.Ends.zoom h).imp ?_
  rintro w' ⟨s', rfl, hq⟩
  exact hq

theorem endsUnless_onState {F : Failure → Prop} {a : α} (h : act.EndsUnless F w.state a Q) :
    (onState act).EndsUnless F w a fun w' => Q w'.state := h.imp_left ends_onState

theorem keeps_onState {I : σ → Prop} {S : Except Failure α → Prop} (h : act.Keeps I S) :
    (onState act).Keeps (fun w => I w.state) S :=
  fun w hi => h w.state hi

end World

end FileTags
