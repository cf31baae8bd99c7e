import FileTags.Action
/-! # Storages

A storage keeps a record under each of some keys.  What it does is five actions on its state; the
store and everything above it know a storage by these alone.  A record is a list of values: the
store writes lists of tags, but other programs may have written anything.
-/
namespace FileTags

/-- What is kept under a key. -/
abbrev Record := List Value

/-- The actions of a storage.  Reading and deleting a key without a record are no failures. -/
structure Storage (σ : Type) where
  /-- The record of a key, if it has one. -/
  read : String → Action σ (Option Record)
  /-- Puts a record under a key, in place of the one before. -/
  write : String → Record → Action σ Unit
  /-- Takes the record of a key out; whether there was one. -/
  delete : String → Action σ Bool
  /-- The keys that have records. -/
  keys : Action σ (List String)
  /-- Gives the medium back; the messages that tell about it. -/
  close : Action σ (List Entry)

/-- The storage on a part of a state. -/
def Storage.zoom {σ τ : Type} (get : τ → σ) (set : σ → τ → τ) (s : Storage σ) : Storage τ where
  read k := (s.read k).zoom get set
  write k r := (s.write k r).zoom get set
  delete k := (s.delete k).zoom get set
  keys := s.keys.zoom get set
  close := s.close.zoom get set

end FileTags
