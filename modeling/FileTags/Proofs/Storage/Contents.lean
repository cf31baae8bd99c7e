import FileTags.Proofs.Actions
import FileTags.Proofs.Entries
import FileTags.Proofs.Records
import FileTags.Storage.Faulty
import FileTags.Storage.Memory
import Mathlib.Logic.Function.Basic
/-! # What storages hold

A storage is known by its five actions, and its state may be anything: entries in memory, a disk, a
connection.  What it holds is a map from keys to lists of texts, its `Contents`.  Two statements
say how the actions work on that map.

* `ActsAsMap`: a storage that never fails.  Each action answers as the map does and leaves a state
  that holds the map after it.
* `Serves`: a storage that fails as a plan of faults says (`Faults`), and acts as the map at every
  call that does not fail.  A call that fails leaves what is held alone, and every call is counted.

The second is what the operations of the store are followed with.  A storage that never fails
serves its contents under a plan without faults (`ActsAsMap.serves`), and the storage around it
whose calls fail serves them under any plan (`ActsAsMap.serves_faulty`).
-/
namespace FileTags.Storage

open Function (update)

variable {σ : Type} {s : Storage σ}

/-- What a storage holds: a list of texts under each of some keys. -/
abbrev Contents := String → Option (List String)

/-- The keys of some contents, each once. -/
structure Contents.Lists (m : Contents) (ks : List String) : Prop where
  nodup : ks.Nodup
  mem_iff : ∀ k, k ∈ ks ↔ (m k).isSome = true

/-! ## Storages that never fail -/

/-- **A storage acts as a map.**  `R t m` says that the state `t` holds the contents `m`. -/
structure ActsAsMap (s : Storage σ) (R : σ → Contents → Prop) : Prop where
  read : ∀ {t m} (k : String), R t m →
    (s.read k).Ends t (.ok ((m k).map Record.ofNames)) (R · m)
  write : ∀ {t m} (k : String) (names : List String), R t m →
    (s.write k (Record.ofNames names)).Ends t (.ok ()) (R · (update m k (some names)))
  delete : ∀ {t m} (k : String), R t m →
    (s.delete k).Ends t (.ok (m k).isSome) (R · (update m k none))
  keys : ∀ {t m}, R t m → ∃ ks, m.Lists ks ∧ s.keys.Ends t (.ok ks) (R · m)

/-- A state holds only one map. -/
theorem ActsAsMap.contents_unique {R : σ → Contents → Prop} (hs : s.ActsAsMap R) {t : σ}
    {m m' : Contents} (h : R t m) (h' : R t m') : m = m' := by
  funext k
  have he : (.ok ((m k).map Record.ofNames) : Except Failure (Option Record)) =
      .ok ((m' k).map Record.ofNames) := (hs.read k h).1.symm.trans (hs.read k h').1
  exact Option.map_injective (fun _ _ => Record.ofNames_injective) (Except.ok.inj he)

/-- The entries in memory that hold some contents: one for each key that has a list. -/
structure Holds (t : Table) (m : Contents) : Prop where
  nodup : (Entries.keys t).Nodup
  find : ∀ k, Entries.find? t k = (m k).map Record.ofNames

theorem holds_nil : Holds [] fun _ => none := ⟨List.nodup_nil, fun _ => rfl⟩

theorem Holds.put {t : Table} {m : Contents} (h : Holds t m) (k : String) (names : List String) :
    Holds (Entries.put t k (Record.ofNames names)) (update m k (some names)) where
  nodup := Entries.nodup_keys_put h.nodup k _
  find j := by
    rw [Entries.find?_put, h.find]
    by_cases hj : k = j
    · rw [if_pos hj, ← hj, Function.update_self, Option.map_some]
    · rw [if_neg hj, Function.update_of_ne (Ne.symm hj)]

theorem Holds.drop {t : Table} {m : Contents} (h : Holds t m) (k : String) :
    Holds (Entries.drop t k) (update m k none) where
  nodup := Entries.nodup_keys_drop h.nodup k
  find j := by
    rw [Entries.find?_drop, h.find]
    by_cases hj : k = j
    · rw [if_pos hj, ← hj, Function.update_self, Option.map_none]
    · rw [if_neg hj, Function.update_of_ne (Ne.symm hj)]

/-- **The storage in memory acts as a map.** -/
theorem memory_actsAsMap : memory.ActsAsMap Holds where
  read k h := ⟨congrArg Except.ok (h.find k), h⟩
  write k names h := ⟨rfl, h.put k names⟩
  delete {t m} k h := by
    refine ⟨congrArg Except.ok ?_, h.drop k⟩
    rw [Entries.has, h.find, Option.isSome_map]
  keys {t m} h := by
    refine ⟨Entries.keys t, ⟨h.nodup, fun k => ?_⟩, rfl, h⟩
    rw [Entries.mem_keys_iff, h.find, Option.isSome_map]

/-! ## Plans of faults -/

namespace Faults

/-- Whether the next call of an act fails, for a key if it has one. -/
def failing (f : Faults) (act : Act) (key : Option String) : Bool := f.fails act (f.calls act) key

/-- The plan after a call of an act. -/
def counted (f : Faults) (act : Act) : Faults :=
  { f with calls := fun a => if a = act then f.calls a + 1 else f.calls a }

/-- No call ever fails. -/
def Never (f : Faults) : Prop := ∀ act calls key, f.fails act calls key = false

@[simp] theorem failure_counted (f : Faults) (act : Act) : (f.counted act).failure = f.failure := rfl

theorem Never.counted {f : Faults} (h : f.Never) (act : Act) : (f.counted act).Never := h

theorem Never.failing {f : Faults} (h : f.Never) (act : Act) (key : Option String) :
    f.failing act key = false := h ..

theorem never_none : Faults.none.Never := fun _ _ _ => rfl

end Faults

/-- **A storage acts as a map under faults.**  `V t m f` says that the state `t` holds the contents
`m`, and that the calls to come fail as `f` says. -/
structure Serves (s : Storage σ) (V : σ → Contents → Faults → Prop) : Prop where
  read : ∀ {t m f} {k : String}, V t m f → f.failing .read (some k) = false →
    (s.read k).Ends t (.ok ((m k).map Record.ofNames)) (V · m (f.counted .read))
  read_fails : ∀ {t m f} {k : String}, V t m f → f.failing .read (some k) = true →
    (s.read k).Ends t (.error (f.failure .read)) (V · m (f.counted .read))
  write : ∀ {t m f} {k : String} (names : List String), V t m f →
    f.failing .write (some k) = false →
    (s.write k (Record.ofNames names)).Ends t (.ok ())
      (V · (update m k (some names)) (f.counted .write))
  write_fails : ∀ {t m f} {k : String} (names : List String), V t m f →
    f.failing .write (some k) = true →
    (s.write k (Record.ofNames names)).Ends t (.error (f.failure .write)) (V · m (f.counted .write))
  delete : ∀ {t m f} {k : String}, V t m f → f.failing .delete (some k) = false →
    (s.delete k).Ends t (.ok (m k).isSome) (V · (update m k none) (f.counted .delete))
  delete_fails : ∀ {t m f} {k : String}, V t m f → f.failing .delete (some k) = true →
    (s.delete k).Ends t (.error (f.failure .delete)) (V · m (f.counted .delete))

/-- A storage that never fails serves its contents under every plan without faults. -/
theorem ActsAsMap.serves {R : σ → Contents → Prop} (hs : s.ActsAsMap R) :
    s.Serves fun t m f => R t m ∧ f.Never where
  read {t m f k} h _ := (hs.read k h.1).imp fun _ h' => ⟨h', h.2⟩
  read_fails h hf := absurd hf (by rw [h.2.failing]; exact Bool.false_ne_true)
  write {t m f k} names h _ := (hs.write k names h.1).imp fun _ h' => ⟨h', h.2⟩
  write_fails names h hf := absurd hf (by rw [h.2.failing]; exact Bool.false_ne_true)
  delete {t m f k} h _ := (hs.delete k h.1).imp fun _ h' => ⟨h', h.2⟩
  delete_fails h hf := absurd hf (by rw [h.2.failing]; exact Bool.false_ne_true)

/-! ## The storage whose calls fail -/

section Faulty
variable {R : σ → Contents → Prop} {F : Faulty σ} {act : Act} {key : Option String}

/-- The guard decides by the plan, and the call is counted either way. -/
theorem guardCall_ends (act : Act) (key : Option String) (F : Faulty σ) :
    (guardCall act key).Ends F
      (if F.faults.failing act key then .error (F.faults.failure act) else .ok ())
      fun F' => F'.inner = F.inner ∧ F'.faults = F.faults.counted act := by
  refine Action.ends_iff.2 ⟨{ F with
    faults := F.faults.counted act
    writes := if act = .write then F.writes + 1 else F.writes }, ?_, rfl, rfl⟩
  show (if F.faults.failing act key then _ else _) = _
  split <;> rfl

/-- A guarded call that is let through ends as the call of the storage inside. -/
theorem guarded_ends {α : Type} {call : Action σ α} {a : α} {m' : Contents}
    (h : F.faults.failing act key = false) (hc : call.Ends F.inner (.ok a) (R · m')) :
    (guardCall act key >>= fun _ => inside call).Ends F (.ok a)
      fun F' => R F'.inner m' ∧ F'.faults = F.faults.counted act := by
  have hg := guardCall_ends act key F
  rw [if_neg (ne_true_of_eq_false h)] at hg
  refine hg.bind ?_
  rintro F' ⟨hinner, hfaults⟩
  rw [← hinner] at hc
  refine (Action.Ends.zoom hc).imp ?_
  rintro F'' ⟨t', rfl, hr⟩
  exact ⟨hr, hfaults⟩

/-- A guarded call that fails leaves the storage inside alone. -/
theorem guarded_fails {α : Type} {call : Action σ α} {m : Contents} (hr : R F.inner m)
    (h : F.faults.failing act key = true) :
    (guardCall act key >>= fun _ => inside call).Ends F (.error (F.faults.failure act))
      fun F' => R F'.inner m ∧ F'.faults = F.faults.counted act := by
  have hg := guardCall_ends act key F
  rw [if_pos h] at hg
  refine Action.Ends.bind_error (hg.imp ?_)
  rintro F' ⟨hinner, hfaults⟩
  exact ⟨by rw [hinner]; exact hr, hfaults⟩

/-- **The storage whose calls fail serves what the one inside holds**, under whatever plan. -/
theorem ActsAsMap.serves_faulty (hs : s.ActsAsMap R) :
    (faulty s).Serves fun F m f => R F.inner m ∧ F.faults = f where
  read := by
    rintro F m _ k ⟨h, rfl⟩ hf
    exact guarded_ends hf (hs.read k h)
  read_fails := by
    rintro F m _ k ⟨h, rfl⟩ hf
    exact guarded_fails h hf
  write := by
    rintro F m _ k names ⟨h, rfl⟩ hf
    exact guarded_ends hf (hs.write k names h)
  write_fails := by
    rintro F m _ k names ⟨h, rfl⟩ hf
    exact guarded_fails h hf
  delete := by
    rintro F m _ k ⟨h, rfl⟩ hf
    exact guarded_ends hf (hs.delete k h)
  delete_fails := by
    rintro F m _ k ⟨h, rfl⟩ hf
    exact guarded_fails h hf

end Faulty

end FileTags.Storage
