import FileTags.Proofs.Storage.Agreement
import FileTags.Proofs.Tagger.Requests
/-! # The backend does not show

Whoever uses the tagger cannot tell which storage is behind it.  Memory lists its keys in the order in
which they were written and a database in ascending order, but files are listed in order of their
identities, tags in their own order, and nothing else is told of keys; only what a sweep answers with
is in the order of the storage.

So taggers over memory, a data file and a database that start empty answer all requests alike, and
for the latter two it makes no difference where they are closed and opened again (`backends_alike`).
Each follows the same index, and an index leaves no choice but the order of a sweep
(`Follows.alike`).

The file system does not fail here: the folder of the file can be made if it is missing, there is
no folder where the file has to be, renaming works, and the names are short enough.
-/
namespace FileTags.Tagger

open FileTags.Action FileTags.Storage

variable {σ : Type}

/-! ## Results that are alike -/

/-- The same result, except that a sweep may answer in another order. -/
def Alike : Except Failure Reply → Except Failure Reply → Prop
  | .ok (.swept ids), r => ∃ ids', r = .ok (.swept ids') ∧ ids'.Perm ids
  | r, r' => r' = r

theorem alike_refl (r : Except Failure Reply) : Alike r r := by
  match r with
  | .ok (.swept ids) => exact ⟨ids, rfl, .refl ids⟩
  | .error f | .ok (.changed a) | .ok (.file f) | .ok (.files fs) | .ok (.groups gs) => rfl

theorem alike_of_eq {r r' : Except Failure Reply} (h : r = r') : Alike r r' := h ▸ alike_refl r

section Follows
variable {S : Surroundings} {M : Index}

/-- A request that asks and changes nothing. -/
def Request.Reads : Request → Prop
  | .get _ | .files | .tags | .find _ => True
  | .change _ | .sweep _ => False

/-- What is read has one result, since an index has one catalogue. -/
theorem Request.Answers.unique {req : Request} {r r' : Except Failure Reply}
    (h : req.Answers S M r) (h' : req.Answers S M r') (hreads : req.Reads) : r = r' := by
  cases req with
  | change c => cases hreads
  | sweep answer => cases hreads
  | get id => exact Eq.trans h (Eq.symm h')
  | files | tags | find query =>
    obtain ⟨files, hf, rfl⟩ := h
    obtain ⟨files', hf', rfl⟩ := h'
    rw [hf.unique hf']

/-- **An index allows one result of a request**, but for the order of a sweep. -/
theorem Request.Answers.alike {req : Request} {r r' : Except Failure Reply}
    (h : req.Answers S M r) (h' : req.Answers S M r') : Alike r r' := by
  cases req with
  | change c => exact alike_of_eq (Eq.trans h (Eq.symm h'))
  | get | files | tags | find => exact alike_of_eq (h.unique h' trivial)
  | sweep answer =>
    obtain ⟨ids, rfl, hnodup, hids⟩ := h
    obtain ⟨ids', rfl, hnodup', hids'⟩ := h'
    refine ⟨ids', rfl, (List.perm_ext_iff_of_nodup hnodup' hnodup).2 fun id => ?_⟩
    exact (hids' id).trans (hids id).symm

/-- **Results that follow one index are alike.** -/
theorem Follows.alike {reqs : List Request} {rs rs' : List (Except Failure Reply)}
    (h : Follows S M reqs rs) (h' : Follows S M reqs rs') : List.Forall₂ Alike rs rs' := by
  induction h generalizing rs' with
  | nil M =>
    cases h'
    exact .nil
  | cons hanswer _ ih =>
    cases h' with
    | cons hanswer' hrest => exact .cons (hanswer.alike hanswer') (ih hrest)

end Follows

/-! ## Closing and opening again -/

/-- A request, or closing the tagger and opening its storage again. -/
inductive Step where
  | ask (req : Request)
  | reopen

/-- The requests among some steps. -/
def Step.requests : List Step → List Request
  | [] => []
  | .ask req :: steps => req :: requests steps
  | .reopen :: steps => requests steps

/-- Closes a tagger and opens its storage again. -/
def reopening (t : Tagger σ) (openAgain : Action σ Unit) : Action (World σ) Unit := do
  t.close
  World.onState openAgain

/-- The results of the requests among some steps.  Opening again gives none, unless it fails. -/
def answers (t : Tagger σ) (openAgain : Action σ Unit) : List Step → World σ →
    List (Except Failure Reply)
  | [], _ => []
  | .ask req :: steps, w =>
    let out := (req.act t).runFrom w
    out.1 :: answers t openAgain steps out.2
  | .reopen :: steps, w =>
    match (reopening t openAgain).runFrom w with
    | (.ok (), w) => answers t openAgain steps w
    | (.error f, w) => .error f :: answers t openAgain steps w

section Reopen
variable {t : Tagger σ} {openAgain : Action σ Unit} {w : World σ}

/-- A tagger is opened again as its storage is; the log makes no difference. -/
theorem reopening_ends {Q : σ → Prop}
    (h : (Storage.reopening t.storage openAgain).Ends w.state (.ok ()) Q) :
    (reopening t openAgain).Ends w (.ok ()) fun w' => Q w'.state := by
  obtain ⟨u, hrun, hu⟩ := ends_iff.1 h
  obtain ⟨messages, u', hclose, hopen⟩ := exists_of_bind_ok hrun
  have hstorage : t.storage.close.Ends w.state (.ok messages) (· = u') :=
    ends_iff.2 ⟨u', hclose, rfl⟩
  have hclosed : t.close.Ends w (.ok ()) fun w' => w'.state = u' :=
    (World.ends_onState hstorage).bind fun w' hw' => ⟨rfl, hw'⟩
  refine hclosed.bind fun w' hw' => World.ends_onState ?_
  rw [hw']
  exact ends_iff.2 ⟨u, hopen, hu⟩

/-- **Wherever it is closed and opened again, a tagger follows the index** that its storage holds. -/
theorem follows_answers {R : σ → Contents → Prop} (hs : t.storage.ActsAsMap R)
    (hre : ∀ u m, R u m → (Storage.reopening t.storage openAgain).Ends u (.ok ()) (R · m))
    (hoff : t.sweepOnList = false) {M : Index} (hw : R w.state M.contents) (steps : List Step) :
    Follows t.surroundings M (Step.requests steps) (answers t openAgain steps w) := by
  induction steps generalizing M w with
  | nil => exact .nil M
  | cons step steps ih =>
    cases step with
    | ask req =>
      obtain ⟨r, ⟨hr, hw'⟩, hanswer⟩ := Request.obeys hs hw hoff req
      refine .cons ?_ (ih hw')
      rw [hr]
      exact hanswer
    | reopen =>
      obtain ⟨w', hrun, hw'⟩ := ends_iff.1 (reopening_ends (hre _ _ hw))
      rw [answers, hrun]
      exact ih hw'

/-- Over a storage that keeps entries, and none at first, it follows the empty index. -/
theorem follows_of_keepsEntries {order : List String → List String}
    {I : σ → Entries String (List String) → Prop}
    (h : KeepsEntries t.storage openAgain order I) (horder : ∀ ks, (order ks).Perm ks)
    (hoff : t.sweepOnList = false) (hw : I w.state []) (steps : List Step) :
    Follows t.surroundings (fun _ => none) (Step.requests steps) (answers t openAgain steps w) := by
  refine follows_answers (h.actsAsMap horder) ?_ hoff ⟨[], hw, List.nodup_nil, fun _ => rfl⟩ steps
  rintro u m ⟨es, hi, hnodup, hfind⟩
  exact (h.reopen hi).imp fun u' hi' => ⟨es, hi', hnodup, hfind⟩

end Reopen

/-! ## The three of them -/

/-- **The backend does not show.**  Taggers over memory, a data file and a database, in the same
surroundings and without a sweep before listing, answer any requests alike if they start empty,
wherever the file and the database are closed and opened again. -/
theorem backends_alike {p q : Path} {d : Disk} {c c' : Connection}
    (hp : ∃ place, d.Admits p place) (hr : d.Replaces p)
    (hfile : ((jsonFile p).keys.runFrom d).1 = .ok [])
    (hopen : (openDatabase q).runFrom c = (.ok (), c'))
    (hrows : ((database q).keys.runFrom c').1 = .ok [])
    (S : Surroundings) (isAlive : String → Except Failure Bool) (log : Log)
    (reqs : List Request) :
    let inMemory := (session ⟨memory, S, false, isAlive⟩ ⟨[], log⟩ reqs).1
    let inFile := fun steps => answers ⟨jsonFile p, S, false, isAlive⟩ (pure ()) steps ⟨d, log⟩
    let inDatabase := fun steps =>
      answers ⟨database q, S, false, isAlive⟩ (openDatabase q) steps ⟨c', log⟩
    (∀ steps, Step.requests steps = reqs → List.Forall₂ Alike inMemory (inFile steps)) ∧
    (∀ steps, Step.requests steps = reqs → List.Forall₂ Alike inMemory (inDatabase steps)) ∧
    ∀ steps steps', Step.requests steps = reqs → Step.requests steps' = reqs →
      List.Forall₂ Alike (inFile steps) (inDatabase steps') := by
  intro inMemory inFile inDatabase
  have hmemory : Follows S (fun _ => none) reqs inMemory := by
    have hholds : Holds [] (Index.contents fun _ => none) := holds_nil
    exact (follows_session (t := ⟨memory, S, false, isAlive⟩) (w := ⟨[], log⟩) memory_actsAsMap
      rfl hholds reqs).1
  have hjson : ∀ steps, Step.requests steps = reqs → Follows S (fun _ => none) reqs (inFile steps) := by
    rintro steps rfl
    exact follows_of_keepsEntries (t := ⟨jsonFile p, S, false, isAlive⟩) (w := ⟨d, log⟩)
      (jsonFile_keepsEntries p) (fun ks => .refl ks) rfl (inFile_nil hp hr hfile) steps
  have hdatabase : ∀ steps, Step.requests steps = reqs →
      Follows S (fun _ => none) reqs (inDatabase steps) := by
    rintro steps rfl
    exact follows_of_keepsEntries (t := ⟨database q, S, false, isAlive⟩) (w := ⟨c', log⟩)
      (database_keepsEntries q) perm_inOrder rfl (inDatabase_nil hopen hrows) steps
  refine ⟨fun steps h => ?_, fun steps h => ?_, fun steps steps' h h' => ?_⟩
  · exact hmemory.alike (hjson steps h)
  · exact hmemory.alike (hdatabase steps h)
  · exact (hjson steps h).alike (hdatabase steps' h')

/-- On a disk where not even the folder is there, with a sweep that removes one of two files. -/
theorem backends_alike_from_nothing :
    let p : Path := ⟨.slash, ["store", "tags.json"]⟩
    let q : Path := ⟨.slash, ["store", "tags.db"]⟩
    let place := ["store", "tags.db"]
    let c' : Connection := ⟨⟨[(place, .database (some []))], [["store"]], none⟩, some place⟩
    let S : Surroundings := ⟨"/work", { own := "/home/user" }⟩
    let isAlive : String → Except Failure Bool := fun _ => .ok true
    let reqs : List Request := [
      .change (.tag "b" (.list [.text "x"]) true),
      .change (.tag "a" (.list [.text "y", .int 3]) true),
      .change (.tag "/a" (.list [.text "x", .text "y"]) false),
      .tags,
      .sweep fun id => .ok (id == "file:///a"),
      .find "x | y"]
    (∃ place, Disk.empty.Admits p place) ∧ Disk.empty.Replaces p ∧
    ((jsonFile p).keys.runFrom .empty).1 = .ok [] ∧
    (openDatabase q).runFrom ⟨.empty, none⟩ = (.ok (), c') ∧
    ((database q).keys.runFrom c').1 = .ok [] ∧
    let inMemory := (session ⟨memory, S, false, isAlive⟩ ⟨[], Log.start 0⟩ reqs).1
    let inFile := fun steps =>
      answers ⟨jsonFile p, S, false, isAlive⟩ (pure ()) steps ⟨.empty, Log.start 0⟩
    let inDatabase := fun steps =>
      answers ⟨database q, S, false, isAlive⟩ (openDatabase q) steps ⟨c', Log.start 0⟩
    (∀ steps, Step.requests steps = reqs → List.Forall₂ Alike inMemory (inFile steps)) ∧
    (∀ steps, Step.requests steps = reqs → List.Forall₂ Alike inMemory (inDatabase steps)) ∧
    ∀ steps steps', Step.requests steps = reqs → Step.requests steps' = reqs →
      List.Forall₂ Alike (inFile steps) (inDatabase steps') := by
  intro p q place c' S isAlive reqs
  have hp : ∃ place, Disk.empty.Admits p place := ⟨["store", "tags.json"], rfl, rfl⟩
  have hr : Disk.empty.Replaces p := ⟨rfl, by decide, by decide⟩
  have hfile : ((jsonFile p).keys.runFrom .empty).1 = .ok [] := rfl
  have hopen : (openDatabase q).runFrom ⟨.empty, none⟩ = (.ok (), c') := rfl
  have hrows : ((database q).keys.runFrom c').1 = .ok [] := by
    show (Except.ok (Storage.inOrder []) : Except Failure (List String)) = .ok []
    rw [Storage.inOrder, List.mergeSort_nil]
  exact ⟨hp, hr, hfile, hopen, hrows,
    backends_alike hp hr hfile hopen hrows S isAlive (Log.start 0) reqs⟩

end FileTags.Tagger
