import FileTags.Backend
import FileTags.Proofs.Storage.DataFile
import FileTags.Proofs.Storage.Database
import FileTags.Proofs.Store.Parallel
/-! # Media that show the same

A medium is known by its data file.  Two hosts whose data files hold the same, with nothing in the way
of them, show the same (`Medium.Shows`), and then every call of the storage has the same result on both
and leaves them showing the same again (`Medium.steady`, `Medium.linked`): whatever else differs between
their disks, no call looks at it.  And as a call touches its data file only, what does not depend on
that file is kept (`Medium.Keeps`).
-/
namespace FileTags

open Storage Disk

/-! ## The data file -/

namespace Storage

/-- A data file with nothing in its way holds this. -/
def InClear (p : Path) (x : Option Content) (d : Disk) : Prop :=
  Clear d p ∧ Entries.find? d.files p.resolved = x

/-- An open database has these rows in its file. -/
def InOpen (p : Path) (x : Option Content) (c : Connection) : Prop :=
  ∃ rows, x = some (.database (some rows)) ∧ OpenAt p p.resolved rows c

end Storage

namespace Medium

/-- The file that a medium keeps its records in. -/
def dataFile? : Medium → Option Path
  | .jsonFile p => some p
  | .database p => some p
  | _ => none

/-- **What an open medium shows**: the data file can be used, and holds this. -/
def Shows : Medium → Option Content → Host → Prop
  | .jsonFile p, x, h => InClear p x h.disk
  | .database p, x, h => InOpen p x h.connection
  | _, _, _ => False

/-- Records can be read from a data file that holds this. -/
def Readable : Medium → Option Content → Prop
  | .jsonFile p, x => ∃ entries, loaded p x = .ok entries
  | .database _, x => ∃ rows, x = some (.database (some rows))
  | _, _ => False

/-- **What is kept when the data file is written**, if there are records in it. -/
def Keeps (m : Medium) (K : Disk → Prop) : Prop :=
  ∀ p, m.dataFile? = some p → ∀ d e, m.Readable (Entries.find? d.files p.resolved) →
    Touches [p.resolved] p.parent.way d e → K d → K e

theorem keeps_true (m : Medium) : m.Keeps fun _ => True := fun _ _ _ _ _ _ _ => trivial

/-! ## Calls over what is shown -/

/-- **An action depends only on what is shown**: from states that show the same it has the same result
and leaves states that show the same, and what is kept is kept. -/
def SteadyOn {σ α : Type} (disk : σ → Disk) (V : Option Content → σ → Prop)
    (Kept : (Disk → Prop) → Prop) (act : Action σ α) : Prop :=
  ∀ x, ∃ r x', ∀ K, Kept K → ∀ s, V x s → K (disk s) →
    act.Ends s r fun s' => V x' s' ∧ K (disk s')

/-- The calls of a storage depend only on what it shows. -/
structure SteadyCalls {σ : Type} (disk : σ → Disk) (V : Option Content → σ → Prop)
    (Kept : (Disk → Prop) → Prop) (s : Storage σ) : Prop where
  read : ∀ k, SteadyOn disk V Kept (s.read k)
  write : ∀ k record, SteadyOn disk V Kept (s.write k record)
  delete : ∀ k, SteadyOn disk V Kept (s.delete k)
  keys : SteadyOn disk V Kept s.keys

section SteadyOn
variable {σ α β : Type} {disk : σ → Disk} {V : Option Content → σ → Prop}
  {Kept : (Disk → Prop) → Prop}

/-- Looking on from what is shown: the answer is known, and nothing has changed. -/
theorem SteadyOn.look {act : Action σ α} {next : α → Action σ β} {r : Option Content → Except Failure α}
    (h : ∀ x s, V x s → act.runFrom s = (r x, s))
    (hn : ∀ x a, r x = .ok a → ∃ r' x', ∀ K, Kept K → ∀ s, V x s → K (disk s) →
      (next a).Ends s r' fun s' => V x' s' ∧ K (disk s')) :
    SteadyOn disk V Kept (act >>= next) := by
  intro x
  cases hr : r x with
  | error f =>
    refine ⟨.error f, x, fun K _ s hs hk => Action.Ends.bind_error ?_⟩
    exact Action.ends_iff.2 ⟨s, by rw [h x s hs, hr], hs, hk⟩
  | ok a =>
    obtain ⟨r', x', hnext⟩ := hn x a hr
    refine ⟨r', x', fun K hkept s hs hk => ?_⟩
    exact Action.ends_bind_of_run (by rw [h x s hs, hr]) (hnext K hkept s hs hk)

/-- An action that only answers. -/
theorem steadyOn_ofExcept (x : Option Content) (r : Except Failure α) :
    ∃ r' x', ∀ K, Kept K → ∀ s, V x s → K (disk s) →
      (Action.ofExcept r : Action σ α).Ends s r' fun s' => V x' s' ∧ K (disk s') :=
  ⟨r, x, fun _ _ _ hs hk => Action.ends_ofExcept r ⟨hs, hk⟩⟩

end SteadyOn

end Medium

namespace Storage

open Medium

/-! ### In a data file -/

section JsonFile
variable {p : Path}

/-- A save is the same wherever the file can be used. -/
theorem steady_saveFile {x : Option Content} (entries : Entries String Value)
    (hx : ∃ entries, loaded p x = .ok entries) {K : Disk → Prop} (hK : (Medium.jsonFile p).Keeps K)
    {d : Disk} (hd : InClear p x d) (hk : K d) :
    (saveFile p entries).Ends d (.ok ()) fun e =>
      InClear p (some (.text (Json.write .indented (.table entries)))) e ∧ K e := by
  refine (hd.1.save entries).imp ?_
  rintro e ⟨hclear, ht, hfile⟩
  refine ⟨⟨hclear, hfile⟩, hK p rfl d e ?_ ht hk⟩
  rw [hd.2]
  exact hx

theorem runFrom_loadFile (x : Option Content) (d : Disk) (hd : InClear p x d) :
    (loadFile p).runFrom d = (loaded p x, d) := by
  rw [hd.1.runFrom_loadFile, hd.2]

theorem jsonFile_steady (p : Path) :
    SteadyCalls id (InClear p) (Medium.jsonFile p).Keeps (jsonFile p) where
  read k := by
    refine SteadyOn.look runFrom_loadFile fun x entries _ => ?_
    cases Entries.find? entries k with
    | some v => exact steadyOn_ofExcept x (recordOf k v)
    | none => exact steadyOn_ofExcept x (.ok none)
  write k record := by
    refine SteadyOn.look runFrom_loadFile fun x entries hx => ?_
    exact ⟨.ok (), _, fun K hK d hd hk => steady_saveFile _ ⟨entries, hx⟩ hK hd hk⟩
  delete k := by
    refine SteadyOn.look runFrom_loadFile fun x entries hx => ?_
    cases Entries.has entries k with
    | true =>
      let saved : Content := .text (Json.write .indented (.table (Entries.drop entries k)))
      refine ⟨.ok true, some saved, fun K hK d hd hk => ?_⟩
      exact (steady_saveFile (Entries.drop entries k) ⟨entries, hx⟩ hK hd hk).bind fun e he =>
        Action.ends_pure he
    | false => exact steadyOn_ofExcept x (.ok false)
  keys := by
    refine SteadyOn.look runFrom_loadFile fun x entries _ => ?_
    exact steadyOn_ofExcept x (.ok (Entries.keys entries))

end JsonFile

/-! ### In a database -/

section Database
variable {p : Path}

/-- The rows of a database whose file holds this. -/
def shownRows (failure : RowFault → StorageFault) : Option Content → Except Failure Rows
  | some (.database (some rows)) => .ok rows
  | _ => .error (.storage (failure .noTable))

theorem runFrom_openPlace {shown : Rows} {c : Connection} (h : OpenAt p p.resolved shown c) :
    (openPlace p).runFrom c = (.ok p.resolved, c) := by
  have hget : (get : Action Connection Connection).runFrom c = (.ok c, c) := rfl
  rw [openPlace, Action.runFrom_bind, hget]
  dsimp only
  rw [h.opened]
  rfl

theorem runFrom_rows (failure : RowFault → StorageFault) (x : Option Content) (c : Connection)
    (hc : InOpen p x c) : (rows p failure).runFrom c = (shownRows failure x, c) := by
  obtain ⟨shown, rfl, hat⟩ := hc
  have hget : (get : Action Connection Connection).runFrom c = (.ok c, c) := rfl
  rw [rows, Action.runFrom_bind, runFrom_openPlace hat]
  dsimp only
  rw [Action.runFrom_bind, hget]
  dsimp only
  rw [rowsAt, hat.file]
  rfl

/-- Rows are put into a database in the same way wherever it is open. -/
theorem steady_setRows {x : Option Content} (shown : Rows) {K : Disk → Prop}
    (hK : (Medium.database p).Keeps K) {c : Connection} (hc : InOpen p x c) (hk : K c.disk) :
    (setRows p shown).Ends c (.ok ()) fun c' =>
      InOpen p (some (.database (some shown))) c' ∧ K c'.disk := by
  obtain ⟨old, rfl, hat⟩ := hc
  obtain ⟨c', hrun, hat'⟩ := Action.ends_iff.1 (hat.setRows_ends shown)
  refine Action.ends_iff.2 ⟨c', hrun, ⟨shown, rfl, hat'⟩, ?_⟩
  rw [setRows, Action.runFrom_bind, runFrom_openPlace hat] at hrun
  obtain rfl : { c with disk := c.disk.setFile p.resolved (.database (some shown)) } = c' :=
    congrArg Prod.snd hrun
  refine hK p rfl c.disk _ ⟨old, hat.file⟩ ?_ hk
  exact (touches_setFile (filePlace_eq_ok.1 hat.settled.place).2 _).mono (List.Subset.refl _)
    (List.nil_subset _)

theorem database_steady (p : Path) :
    SteadyCalls Connection.disk (InOpen p) (Medium.database p).Keeps (database p) where
  read k := by
    refine SteadyOn.look (runFrom_rows _) fun x shown _ => ?_
    cases Entries.find? shown k with
    | some text =>
      refine ⟨some <$> recordOfRow k text, x, fun K _ c hc hk => ?_⟩
      dsimp only
      cases recordOfRow k text with
      | error f => exact ⟨rfl, hc, hk⟩
      | ok record => exact ⟨rfl, hc, hk⟩
    | none => exact steadyOn_ofExcept x (.ok none)
  write k record := by
    refine SteadyOn.look (runFrom_rows _) fun x shown _ => ?_
    exact ⟨.ok (), _, fun K hK c hc hk => steady_setRows _ hK hc hk⟩
  delete k := by
    refine SteadyOn.look (runFrom_rows _) fun x shown _ => ?_
    let left : Content := .database (some (Entries.drop shown k))
    refine ⟨.ok (Entries.has shown k), some left, fun K hK c hc hk => ?_⟩
    exact (steady_setRows (Entries.drop shown k) hK hc hk).bind fun c' hc' => Action.ends_pure hc'
  keys := by
    refine SteadyOn.look (runFrom_rows _) fun x shown _ => ?_
    exact steadyOn_ofExcept x (.ok _)

end Database

end Storage

namespace Medium

open Storage

/-! ### On a host -/

section Zoom
variable {σ τ α : Type} {disk : σ → Disk} {disk' : τ → Disk} {V : Option Content → σ → Prop}
  {V' : Option Content → τ → Prop} {Kept : (Disk → Prop) → Prop} {get : τ → σ} {set : σ → τ → τ}
  (hdisk : ∀ t, disk' t = disk (get t)) (hset : ∀ s t, get (set s t) = s)
  (hV : ∀ x t, V' x t ↔ V x (get t))
include hdisk hset hV

/-- An action on a part of a state depends on what that part shows. -/
theorem SteadyOn.zoom {act : Action σ α} (h : SteadyOn disk V Kept act) :
    SteadyOn disk' V' Kept (act.zoom get set) := by
  intro x
  obtain ⟨r, x', hact⟩ := h x
  refine ⟨r, x', fun K hK t ht hk => ?_⟩
  have hends := hact K hK (get t) ((hV x t).1 ht) (hdisk t ▸ hk)
  refine hends.zoom.imp ?_
  rintro t' ⟨s', rfl, hs', hk'⟩
  rw [hV, hdisk, hset]
  exact ⟨hs', hk'⟩

theorem SteadyCalls.zoom {s : Storage σ} (h : SteadyCalls disk V Kept s) :
    SteadyCalls disk' V' Kept (s.zoom get set) where
  read k := (h.read k).zoom hdisk hset hV
  write k record := (h.write k record).zoom hdisk hset hV
  delete k := (h.delete k).zoom hdisk hset hV
  keys := h.keys.zoom hdisk hset hV

end Zoom

/-- **The calls of a medium depend only on what it shows.** -/
theorem steady (m : Medium) : SteadyCalls Host.disk m.Shows m.Keeps m.storage := by
  cases m with
  | memory | foreign =>
    exact ⟨fun _ _ => ⟨.ok none, none, fun _ _ _ hs => hs.elim⟩,
      fun _ _ _ => ⟨.ok (), none, fun _ _ _ hs => hs.elim⟩,
      fun _ _ => ⟨.ok false, none, fun _ _ _ hs => hs.elim⟩,
      fun _ => ⟨.ok [], none, fun _ _ _ hs => hs.elim⟩⟩
  | jsonFile p =>
    show SteadyCalls _ _ _ ((Storage.jsonFile p).zoom Host.disk fun disk h => { h with disk })
    refine (jsonFile_steady p).zoom ?_ ?_ ?_
    · exact fun _ => rfl
    · exact fun _ _ => rfl
    · exact fun _ _ => Iff.rfl
  | database p =>
    show SteadyCalls _ _ _ ((Storage.database p).zoom Host.connection Host.setConnection)
    refine (database_steady p).zoom ?_ ?_ ?_
    · exact fun _ => rfl
    · exact fun _ _ => rfl
    · exact fun _ _ => Iff.rfl

/-- Two worlds show the same, and on the disk of the first something is kept. -/
def Beside (m : Medium) (K : Disk → Prop) (w w' : World Host) : Prop :=
  ∃ x, (m.Shows x w.state ∧ K w.state.disk) ∧ m.Shows x w'.state

theorem parallel_of_steady {α : Type} {m : Medium} {K : Disk → Prop} (hK : m.Keeps K)
    {act : Action Host α} (h : SteadyOn Host.disk m.Shows m.Keeps act) :
    Action.Parallel (m.Beside K) (World.onState act) (World.onState act) := by
  rintro w w' ⟨x, ⟨hw, hk⟩, hw'⟩
  obtain ⟨r, x', hact⟩ := h x
  have hends := World.ends_onState (hact K hK w.state hw hk)
  have hends' := World.ends_onState (hact _ m.keeps_true w'.state hw' trivial)
  exact ⟨hends.1.trans hends'.1.symm, x', hends.2, hends'.2.1⟩

/-- **Over media that show the same, operations go in parallel.** -/
theorem linked {m : Medium} {K : Disk → Prop} (hK : m.Keeps K) :
    Linked (m.Beside K) m.storage m.storage where
  note _ _ _ _ _ h := ⟨rfl, h⟩
  read k := parallel_of_steady hK (m.steady.read k)
  write k record := parallel_of_steady hK (m.steady.write k record)
  delete k := parallel_of_steady hK (m.steady.delete k)
  keys := parallel_of_steady hK m.steady.keys

end Medium

end FileTags
