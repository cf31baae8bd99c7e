import FileTags.Storage.Basic
/-! # A storage that fails

A storage around another one, whose calls fail as rules say, to see how the rest bears it.  A call
that fails does nothing to the storage inside.  The calls are counted, and the keys it lists can be
replaced by others.
-/
namespace FileTags.Storage

/-- The acts that can fail. -/
inductive Act where
  | read
  | write
  | delete
  | keys
  deriving DecidableEq, Repr

/-- The word for an act. -/
def Act.word : Act → String
  | .read => "read"
  | .write => "write"
  | .delete => "delete"
  | .keys => "keys"

/-- When an act fails. -/
inductive FailRule where
  | never
  | always
  /-- For one of these keys. -/
  | onKeys (keys : List String)
  /-- After so many calls. -/
  | after (calls : Int)
  deriving DecidableEq, Repr

/-- Whether a call fails, after so many calls of its act, for a key if it has one. -/
def FailRule.applies (rule : FailRule) (calls : Nat) (key : Option String) : Bool :=
  match rule with
  | .never => false
  | .always => true
  | .onKeys keys => key.any keys.contains
  | .after n => n ≤ calls

/-- Which calls fail, the failure that such a call ends in, and the calls of each act so far. -/
structure Faults where
  /-- Whether a call of an act fails, after so many calls of it, for a key if it has one. -/
  fails : Act → Nat → Option String → Bool
  failure : Act → Failure
  calls : Act → Nat

/-- The failure of an act in the words of a test. -/
def simulated (act : Act) : String := "simulated " ++ act.word ++ " failure"

/-- Calls that fail by the rules of their acts. -/
def Faults.ofRules (rule : Act → FailRule) (failure : Act → Failure) : Faults :=
  ⟨fun act => (rule act).applies, failure, fun _ => 0⟩

/-- No failures at all. -/
def Faults.none : Faults := .ofRules (fun _ => .never) fun act => .storage (.stated (simulated act))

/-- A storage inside, its faults, the counts of writes and closes, and the keys to list instead. -/
structure Faulty (σ : Type) where
  inner : σ
  faults : Faults
  writes : Nat
  closes : Nat
  listed : Option (List String)

variable {σ : Type}

/-- Counts a call and fails if it is one that fails. -/
def guardCall (act : Act) (key : Option String) : Action (Faulty σ) Unit := .ofRun fun s =>
  let calls := s.faults.calls
  let counted : Faults :=
    { s.faults with calls := fun a => if a = act then calls a + 1 else calls a }
  let s' : Faulty σ :=
    { s with faults := counted, writes := if act = .write then s.writes + 1 else s.writes }
  if s.faults.fails act (calls act) key then (.error (s.faults.failure act), s')
  else (.ok (), s')

/-- An action of the storage inside. -/
def inside {α : Type} (act : Action σ α) : Action (Faulty σ) α :=
  act.zoom Faulty.inner fun inner s => { s with inner }

/-- The storage that fails. -/
def faulty (s : Storage σ) : Storage (Faulty σ) where
  read k := do
    guardCall .read (some k)
    inside (s.read k)
  write k r := do
    guardCall .write (some k)
    inside (s.write k r)
  delete k := do
    guardCall .delete (some k)
    inside (s.delete k)
  keys := do
    guardCall .keys none
    let real ← inside s.keys
    return (← get).listed.getD real
  close := do
    modify fun f => { f with closes := f.closes + 1 }
    inside s.close

end FileTags.Storage
