import FileTags.Storage.Basic
/-! # Storage in memory

The plainest storage: entries in memory, which never fails.  It is what every storage is compared
with.
-/
namespace FileTags.Storage

/-- The records of a storage in memory. -/
abbrev Table := Entries String Record

/-- The storage in memory. -/
def memory : Storage Table where
  read k := .ofRun fun t => (.ok (Entries.find? t k), t)
  write k r := .ofRun fun t => (.ok (), Entries.put t k r)
  delete k := .ofRun fun t => (.ok (Entries.has t k), Entries.drop t k)
  keys := .ofRun fun t => (.ok (Entries.keys t), t)
  close := pure []

@[simp] theorem memory_read (k : String) (t : Table) :
    (memory.read k).runFrom t = (.ok (Entries.find? t k), t) := rfl

@[simp] theorem memory_write (k : String) (r : Record) (t : Table) :
    (memory.write k r).runFrom t = (.ok (), Entries.put t k r) := rfl

@[simp] theorem memory_delete (k : String) (t : Table) :
    (memory.delete k).runFrom t = (.ok (Entries.has t k), Entries.drop t k) := rfl

@[simp] theorem memory_keys (t : Table) : memory.keys.runFrom t = (.ok (Entries.keys t), t) := rfl

end FileTags.Storage
