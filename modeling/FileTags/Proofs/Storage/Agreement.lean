import FileTags.Proofs.Storage.Database
/-! # The storages agree

Whoever uses a storage need not know which one it is.  Memory, a data file and a database start
empty, are called in the same way, and answer in the same way (`same_answers`): as the history of
calls demands, so that the data file lists keys in the order of memory, and the database lists the
same keys in ascending order.  A data file and a database can be closed and opened again at any
point, as often as one likes; only what they keep on the disk is left then, and it is enough.

The file system does not fail here: the folder of the file can be made if it is missing, there is
no folder where the file has to be, renaming works, and the names are short enough.
-/
namespace FileTags.Storage

open Record (ofNames)

/-- **The storage in memory keeps entries**: its own. -/
theorem memory_keepsEntries :
    KeepsEntries memory (pure ()) id fun t es => t = Entries.mapValues ofNames es where
  read {t es} k := by
    rintro rfl
    exact ⟨congrArg Except.ok (Entries.find?_mapValues ofNames es k), rfl⟩
  write {t es} k names := by
    rintro rfl
    exact ⟨rfl, Entries.put_mapValues ofNames es k names⟩
  delete {t es} k := by
    rintro rfl
    exact ⟨congrArg Except.ok (Entries.has_mapValues ofNames es k),
      Entries.drop_mapValues ofNames es k⟩
  keys {t es} := by
    rintro rfl
    exact ⟨congrArg Except.ok (Entries.keys_mapValues ofNames es), rfl⟩
  reopen h := ⟨rfl, h⟩

/-- The same answer, except that keys are listed in ascending order. -/
def Reply.Sorts : Reply → Reply → Prop
  | .listed ks, r => ∃ ks', r = .listed ks' ∧ ks'.Perm ks ∧ ks'.Pairwise (· < ·)
  | r, r' => r' = r

theorem Demands.sorts {past : List Call} {c : Call} {r : Reply} (h : Demands past c r) :
    r.Sorts (r.shown inOrder) := by
  cases c with
  | read k =>
    obtain rfl : r = _ := h
    rfl
  | write k names =>
    obtain rfl : r = _ := h
    rfl
  | delete k =>
    obtain rfl : r = _ := h
    rfl
  | keys =>
    obtain ⟨ks, rfl, -, hsorted⟩ := h
    exact ⟨inOrder ks, rfl, perm_inOrder ks, inOrder_sorted (nodup_of_earlier hsorted)⟩

theorem Follows.sorts {past calls : List Call} {rs : List Reply} (h : Follows past calls rs) :
    List.Forall₂ Reply.Sorts rs (rs.map (Reply.shown inOrder)) := by
  induction h with
  | nil past => exact .nil
  | cons hdemands _ ih => exact .cons hdemands.sorts ih

theorem calls_map_call (calls : List Call) : Step.calls (calls.map Step.call) = calls := by
  induction calls with
  | nil => rfl
  | cons c calls ih => rw [List.map_cons, Step.calls, ih]

theorem Reply.shown_id (r : Reply) : r.shown id = r := by
  cases r <;> rfl

/-- **Memory, a data file and a database that start empty answer any calls alike**, wherever the file
and the database are closed and opened again: with the only answers that follow the calls before,
but for the order in which the database lists keys. -/
theorem same_answers {p q : Path} {d : Disk} {c c' : Connection}
    (hp : ∃ place, d.Admits p place) (hr : d.Replaces p)
    (hfile : ((jsonFile p).keys.runFrom d).1 = .ok [])
    (hopen : (openDatabase q).runFrom c = (.ok (), c'))
    (hrows : ((database q).keys.runFrom c').1 = .ok []) (calls : List Call) :
    ∃ rs sorted : List Reply,
      (∀ rs', Follows [] calls rs' ↔ rs' = rs) ∧ List.Forall₂ Reply.Sorts rs sorted ∧
      answers memory (pure ()) (calls.map .call) [] = rs.map .ok ∧
      (∀ steps, Step.calls steps = calls →
        answers (jsonFile p) (pure ()) steps d = rs.map .ok) ∧
      ∀ steps, Step.calls steps = calls →
        answers (database q) (openDatabase q) steps c' = sorted.map .ok := by
  have hfollows : Follows [] calls (replies [] calls) := follows_replies remembers_nil calls
  have honly : ∀ rs', Follows [] calls rs' ↔ rs' = replies [] calls := by
    intro rs'
    constructor
    · exact fun hrs' => hrs'.unique hfollows
    · rintro rfl
      exact hfollows
  refine ⟨replies [] calls, (replies [] calls).map (Reply.shown inOrder), honly, hfollows.sorts,
    ?_, ?_, ?_⟩
  · have hempty : ([] : Table) = Entries.mapValues ofNames [] := rfl
    have hmemory := memory_keepsEntries.answers_eq (calls.map .call) hempty
    simp only [Reply.shown_id, calls_map_call] at hmemory
    exact hmemory
  · rintro steps rfl
    have hjson := (jsonFile_keepsEntries p).answers_eq steps (inFile_nil hp hr hfile)
    simp only [Reply.shown_id] at hjson
    exact hjson
  · rintro steps rfl
    rw [(database_keepsEntries q).answers_eq steps (inDatabase_nil hopen hrows), List.map_map]
    rfl

/-- On a disk where not even the folder is there. -/
theorem same_answers_from_nothing :
    let p : Path := ⟨.slash, ["store", "tags.json"]⟩
    let q : Path := ⟨.slash, ["store", "tags.db"]⟩
    let place := ["store", "tags.db"]
    let c' : Connection := ⟨⟨[(place, .database (some []))], [["store"]], none⟩, some place⟩
    let calls : List Call := [.write "b" [], .write "a" ["x"], .keys, .delete "b", .read "b"]
    (∃ place, Disk.empty.Admits p place) ∧ Disk.empty.Replaces p ∧
    ((jsonFile p).keys.runFrom .empty).1 = .ok [] ∧
    (openDatabase q).runFrom ⟨.empty, none⟩ = (.ok (), c') ∧
    ((database q).keys.runFrom c').1 = .ok [] ∧
    ∃ rs sorted : List Reply,
      (∀ rs', Follows [] calls rs' ↔ rs' = rs) ∧ List.Forall₂ Reply.Sorts rs sorted ∧
      answers memory (pure ()) (calls.map .call) [] = rs.map .ok ∧
      (∀ steps, Step.calls steps = calls →
        answers (jsonFile p) (pure ()) steps .empty = rs.map .ok) ∧
      ∀ steps, Step.calls steps = calls →
        answers (database q) (openDatabase q) steps c' = sorted.map .ok := by
  intro p q place c' calls
  have hp : ∃ place, Disk.empty.Admits p place := ⟨["store", "tags.json"], rfl, rfl⟩
  have hr : Disk.empty.Replaces p := ⟨rfl, by decide, by decide⟩
  have hfile : ((jsonFile p).keys.runFrom .empty).1 = .ok [] := rfl
  have hopen : (openDatabase q).runFrom ⟨.empty, none⟩ = (.ok (), c') := rfl
  have hrows : ((database q).keys.runFrom c').1 = .ok [] := by
    show (Except.ok (inOrder []) : Except Failure (List String)) = .ok []
    rw [inOrder, List.mergeSort_nil]
  exact ⟨hp, hr, hfile, hopen, hrows, same_answers hp hr hfile hopen hrows calls⟩

end FileTags.Storage
