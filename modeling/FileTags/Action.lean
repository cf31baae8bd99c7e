import FileTags.Failure
import FileTags.Log
/-! # Actions

An action works on a state and answers or fails.  What it did to the state before it failed stays
done: a failure is an answer like any other, and nothing is undone behind the caller's back.
-/
namespace FileTags

/-- A computation on a state that answers or fails. -/
abbrev Action (σ : Type) := ExceptT Failure (StateM σ)

namespace Action

variable {σ τ α : Type}

/-- The result of an action from a state, and the state after it. -/
def runFrom (act : Action σ α) (s : σ) : Except Failure α × σ := act.run s

/-- An action given by what it does to the state. -/
def ofRun (f : σ → Except Failure α × σ) : Action σ α := ExceptT.mk f

/-- The result of an action, whether it answers or fails. -/
def attempt (act : Action σ α) : Action σ (Except Failure α) :=
  ofRun fun s => let (r, s) := act.runFrom s; (.ok r, s)

/-- An answer or a failure that is already known. -/
def ofExcept (r : Except Failure α) : Action σ α := ofRun fun s => (r, s)

/-- An action on a part of a state. -/
def zoom (get : τ → σ) (set : σ → τ → τ) (act : Action σ α) : Action τ α :=
  ofRun fun t => let (r, s) := act.runFrom (get t); (r, set s t)

@[simp] theorem runFrom_ofRun (f : σ → Except Failure α × σ) (s : σ) : (ofRun f).runFrom s = f s :=
  rfl

@[simp] theorem runFrom_pure (a : α) (s : σ) : (pure a : Action σ α).runFrom s = (.ok a, s) := rfl

@[simp] theorem runFrom_throw (f : Failure) (s : σ) :
    (throw f : Action σ α).runFrom s = (.error f, s) := rfl

theorem runFrom_bind {β : Type} (act : Action σ α) (next : α → Action σ β) (s : σ) :
    (act >>= next).runFrom s =
      match act.runFrom s with
      | (.ok a, s) => (next a).runFrom s
      | (.error f, s) => (.error f, s) := by
  simp only [runFrom, ExceptT.run, bind, ExceptT.bind, ExceptT.mk, StateT.bind]
  rcases act s with ⟨r, s'⟩
  cases r <;> rfl

@[simp] theorem runFrom_attempt (act : Action σ α) (s : σ) :
    act.attempt.runFrom s = (.ok (act.runFrom s).1, (act.runFrom s).2) := rfl

@[simp] theorem runFrom_ofExcept (r : Except Failure α) (s : σ) :
    (ofExcept r : Action σ α).runFrom s = (r, s) := rfl

end Action

/-- What the operations of a store work on: the state of its storage, and the log. -/
structure World (σ : Type) where
  state : σ
  log : Log

namespace World

variable {σ : Type}

/-- Logs a message. -/
def note (level : Level) (logger text : String) : Action (World σ) Unit :=
  .ofRun fun w => (.ok (), { w with log := w.log.add ⟨level, logger, text⟩ })

/-- An action on the state of the storage. -/
def onState {α : Type} (act : Action σ α) : Action (World σ) α :=
  act.zoom World.state fun s w => { w with state := s }

end World

end FileTags
