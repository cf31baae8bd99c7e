import FileTags.Storage.Basic
import FileTags.Tag
/-! # The store

The store maps identities to tags, on top of any storage.  Tags are checked before anything is
written and are replaced as a whole; an identity without tags has no record.  Nothing is cached:
every operation asks the storage.  A rename that fails half way puts back what was there; a sweep
works on the identities listed before its first probe.
-/
namespace FileTags.Store

variable {σ : Type} (s : Storage σ)

/-- The logger of the store. -/
def logger : String := "tagit.tag_store"

/-- Logs a message of the store. -/
def note (level : Level) (text : String) : Action (World σ) Unit := World.note level logger text

/-- Reads the record of an identity. -/
def read (id : String) : Action (World σ) (Option Record) := World.onState (s.read id)

/-- Writes the record of an identity. -/
def write (id : String) (record : Record) : Action (World σ) Unit :=
  World.onState (s.write id record)

/-- Deletes the record of an identity. -/
def delete (id : String) : Action (World σ) Bool := World.onState (s.delete id)

/-- The tags of an identity, each once; none if it has no record. -/
def get (id : String) : Action (World σ) Record := do
  Action.ofExcept (Tag.dedupe ((← read s id).getD []))

/-- Replaces the tags of an identity; no tags at all take its record out. -/
def set (id : String) (entries : List Value) : Action (World σ) Unit := do
  let tags ← Action.ofExcept (Tag.validateAll entries)
  if tags.isEmpty then
    let _ ← delete s id
    note .debug ("Cleared tags for " ++ id)
  else
    write s id tags
    note .debug ("Set " ++ toString tags.length ++ " tags for " ++ id)

/-- Takes the tags of an identity away. -/
def clear (id : String) : Action (World σ) Unit := do
  if ← delete s id then note .debug ("Cleared tags for " ++ id)

/-- Puts a record under an identity; a record without entries is as good as none. -/
def putBack (id : String) (record : Record) : Action (World σ) Unit := do
  if record.isEmpty then
    let _ ← delete s id
  else write s id record

/-- Puts back the record that an identity had.  A storage that fails once more is only reported. -/
def restore (id : String) (previous : Option Record) : Action (World σ) Unit := do
  match ← (putBack s id (previous.getD [])).attempt with
  | .ok () => return
  | .error f =>
    if f.ofStorage then note .error ("Could not restore tags of " ++ id ++ ": " ++ f.message)
    else throw f

/-- Gives the tags of one identity to another, in place of those it has, and answers with the
record that the other had before. -/
def give (id : String) (tags : List Value) : Action (World σ) (Option Record) := do
  let previous ← read s id
  set s id tags
  return previous

/-- Makes a move complete once both identities have the tags: the old one gives its record up.  If
that fails, the new one gets back what it had before. -/
def complete (old new : String) (previous : Option Record) : Action (World σ) Bool := do
  match ← (delete s old).attempt with
  | .error f =>
    if f.ofStorage then
      note .warning ("Failed to remove tags of " ++ old ++ " after rename: " ++ f.message)
      restore s new previous
      return false
    else throw f
  | .ok _ =>
    note .info ("Moved tags from " ++ old ++ " to " ++ new)
    return true

/-- Moves tags that one identity has to another. -/
def move (old new : String) (tags : List Value) : Action (World σ) Bool := do
  match ← (give s new tags).attempt with
  | .error f =>
    if f.ofTags || f.ofStorage then
      note .warning ("Failed to move tags from " ++ old ++ " to " ++ new ++ ": " ++ f.message)
      return false
    else throw f
  | .ok previous => complete s old new previous

/-- Moves the tags of one identity to another.  The answer says whether they moved; they stay where
they are if there are none, if both are the same, or if the storage fails. -/
def rename (old new : String) : Action (World σ) Bool := do
  if old = new then return false
  let tags ← get s old
  if tags.isEmpty then return false
  move s old new tags

/-- The tags of each of some identities; those without tags are passed over. -/
def tagsOfEach : List String → Action (World σ) (List (String × Record))
  | [] => return []
  | id :: ids => do
    let tags ← get s id
    let rest ← tagsOfEach ids
    return if tags.isEmpty then rest else (id, tags) :: rest

/-- Every identity with tags, and its tags. -/
def items : Action (World σ) (List (String × Record)) := do
  let keys ← World.onState s.keys
  tagsOfEach s (Tag.dedupeBy (· == ·) keys)

/-- Every identity with tags. -/
def identities : Action (World σ) (List String) := return (← items s).map Prod.fst

/-- What a sweep asks of an identity: whether its file is still there. -/
abbrev Probe (σ : Type) := String → Action (World σ) Bool

/-- Asks for each of some identities and clears those whose file is gone, which it answers with.  An
identity for which the question fails is left alone. -/
def sweepEach (probe : Probe σ) : List String → Action (World σ) (List String)
  | [] => return []
  | id :: ids => do
    match ← (probe id).attempt with
    | .error f =>
      note .warning ("Skipping " ++ id ++ " during sweep, probe failed: " ++ f.message)
      sweepEach probe ids
    | .ok true => sweepEach probe ids
    | .ok false =>
      clear s id
      return id :: (← sweepEach probe ids)

/-- Clears the identities whose file is gone, and answers with them. -/
def sweep (probe : Probe σ) : Action (World σ) (List String) := do
  let removed ← sweepEach s probe (← identities s)
  if !removed.isEmpty then
    note .info ("Swept " ++ toString removed.length ++ " stale tagged files")
  return removed

end FileTags.Store
