import FileTags.Identity
import FileTags.Listing
import FileTags.Store
/-! # The tagger

What an editor or a command line asks for: tagging files by path or URI, carrying tags over when
files move, looking files up by tags and by queries.  Identities are normalized on the way in, and
once more when the file just changed is read back.
-/
namespace FileTags

/-- A store in its surroundings, with what it asks about the files that it sweeps. -/
structure Tagger (σ : Type) where
  storage : Storage σ
  surroundings : Surroundings
  sweepOnList : Bool
  /-- Whether the file of an identity is still there. -/
  isAlive : String → Except Failure Bool

namespace Tagger

variable {σ : Type} (t : Tagger σ)

/-- The logger of the tagger. -/
def logger : String := "tagit.api"

/-- Logs a message of the tagger. -/
def note (level : Level) (text : String) : Action (World σ) Unit := World.note level logger text

/-- The identity that a text stands for. -/
def identity (id : String) : Action (World σ) String :=
  .ofExcept (Identity.normalize t.surroundings id)

/-- Texts between commas. -/
def joined (vs : List Value) : Except Failure String := joinTexts ", " vs

/-- The tags of a file. -/
def get (id : String) : Action (World σ) TaggedFile := do
  let id ← t.identity id
  return ⟨id, ← Store.get t.storage id⟩

/-- Sets the tags of a file, or adds to them. -/
def tag (id : String) (tags : Value) (replace : Bool) : Action (World σ) TaggedFile := do
  let id ← t.identity id
  let entries ← Action.ofExcept (Tag.collection tags)
  let entries ← if replace then pure entries else (· ++ entries) <$> Store.get t.storage id
  Store.set t.storage id entries
  let text ← Action.ofExcept (joined (← Action.ofExcept (Tag.dedupe entries)))
  note .info ("Tagged " ++ id ++ ": " ++ text)
  t.get id

/-- Takes tags from a file: all of them if none are named. -/
def untag (id : String) (tags : Option Value) : Action (World σ) TaggedFile := do
  let id ← t.identity id
  match tags with
  | none =>
    Store.clear t.storage id
    note .info ("Untagged " ++ id)
  | some v =>
    let removed ← Action.ofExcept (Tag.collection v >>= Tag.dedupe)
    let current ← Store.get t.storage id
    Store.set t.storage id (current.filter fun tag => !removed.any (Value.same tag))
    let sorted ← Action.ofExcept ((Value.sort? removed).elim (.error .wrongKind) .ok)
    note .info ("Removed " ++ (← Action.ofExcept (joined sorted)) ++ " from " ++ id)
  t.get id

/-- A file was moved: carries its tags over. -/
def renamed (old new : String) : Action (World σ) Bool := do
  let old ← t.identity old
  let new ← t.identity new
  Store.rename t.storage old new

/-- A file was deleted: drops its tags. -/
def deleted (id : String) : Action (World σ) Unit := do Store.clear t.storage (← t.identity id)

/-- Drops the tags of the files that are gone. -/
def sweep : Action (World σ) (List String) :=
  Store.sweep t.storage fun id => .ofExcept (t.isAlive id)

/-- Every tagged file, by identity. -/
def files : Action (World σ) (List TaggedFile) := do
  if t.sweepOnList then
    let _ ← t.sweep
  let items ← Store.items t.storage
  return (items.mergeSort fun a b => a.1 ≤ b.1).map fun item => ⟨item.1, item.2⟩

/-- Adds a file to the group of a tag, which is made if it is new. -/
def addToGroup (groups : List TagGroup) (tag : Value) (id : String) : List TagGroup :=
  match groups with
  | [] => [⟨tag, [id]⟩]
  | g :: rest =>
    if g.tag.same tag then ⟨g.tag, g.ids ++ [id]⟩ :: rest else g :: addToGroup rest tag id

/-- The groups of the tags of some files, in the order in which the tags first come. -/
def groupsOf (files : List TaggedFile) : List TagGroup :=
  files.foldl
    (fun groups f => f.tags.foldl (fun groups tag => addToGroup groups tag f.id) groups) []

/-- The groups by their tags; nothing if some two tags have no order. -/
def sortGroups? (groups : List TagGroup) : Option (List TagGroup) := do
  let sorted ← Value.sort? (groups.map TagGroup.tag)
  return sorted.filterMap fun tag => groups.find? fun g => g.tag.same tag

/-- Every tag in use with the files that carry it, by tag. -/
def tags : Action (World σ) (List TagGroup) := do
  let groups := groupsOf (← t.files)
  match sortGroups? groups with
  | some sorted => return sorted
  | none => throw .wrongKind

/-- Whether the tags of a file meet a condition. -/
def meets (e : Query.Expr) (f : TaggedFile) : Bool :=
  e.holds fun name => f.tags.any (Value.same (.text name))

/-- The files whose tags meet a query. -/
def find (query : String) : Action (World σ) (List TaggedFile) := do
  match Query.parse query with
  | .error m => throw (.malformedQuery m)
  | .ok e =>
    let found := (← t.files).filter (meets e)
    note .debug ("Query " ++ Text.quoted query ++ " matched " ++ toString found.length ++ " files")
    return found

/-- Gives the storage back, and takes the operations log out of use. -/
def close : Action (World σ) Unit := do
  let messages ← World.onState t.storage.close
  modify fun w => { w with log := (messages.foldl Log.add w.log).detachOps }

end Tagger

end FileTags
