import FileTags.Command.Run
import FileTags.Proofs.Config.Saving
import FileTags.Proofs.Json.Tables
import FileTags.Proofs.Path
import FileTags.Proofs.Storage.Media
import FileTags.Proofs.Toml.Front
/-! # Opening a store

A store that was opened is ready (`ready_of_openStore`): it is configured, its folder is there, and so is
its operations log.  Opening it again then has nothing to make, and comes to the same tagger over a
medium that shows what its data file holds (`Ready.openStore`).  A store stays ready while files other
than that of its configuration are written (`Ready.touched`).
-/
namespace FileTags

open Disk Storage Config

/-! ## Stores that are ready -/

namespace Medium

/-- **What a closed medium holds**: its data file can be used, and holds this. -/
def Holds : Medium → Option Content → Disk → Prop
  | .jsonFile p, x, d => InClear p x d
  | .database p, x, d => isTooLong p = false ∧ d.Settled p p.resolved ∧
      (∃ rows, x = some (.database (some rows))) ∧ Entries.find? d.files p.resolved = x
  | _, _, _ => False

variable {m : Medium} {x : Option Content} {p : Path} {d e : Disk} {h : Host}

/-- What is shown is held. -/
theorem Shows.holds (hs : m.Shows x h) : m.Holds x h.disk := by
  cases m with
  | memory | foreign => exact hs
  | jsonFile p => exact hs
  | database p =>
    obtain ⟨rows, rfl, hat⟩ := hs
    exact ⟨hat.short, hat.settled, ⟨rows, rfl⟩, hat.file⟩

theorem Holds.file (hs : m.Holds x d) (hp : m.dataFile? = some p) :
    Entries.find? d.files p.resolved = x := by
  cases m with
  | memory | foreign => cases hp
  | jsonFile q =>
    obtain rfl := Option.some.inj hp
    exact hs.2
  | database q =>
    obtain rfl := Option.some.inj hp
    exact hs.2.2.2

/-- **What is written elsewhere leaves the data file alone.** -/
theorem Holds.touched {files folders : List (List String)} (hs : m.Holds x d)
    (hp : m.dataFile? = some p) (ht : Touches files folders d e)
    (hfiles : ∀ here ∈ p.way, here ∉ files) (hfolders : p.resolved ∉ folders) : m.Holds x e := by
  cases m with
  | memory | foreign => cases hp
  | jsonFile q =>
    obtain rfl := Option.some.inj hp
    exact ⟨hs.1.touched ht hfiles hfolders, (ht.elsewhere _ (hfiles _ q.resolved_mem_way)).trans hs.2⟩
  | database q =>
    obtain rfl := Option.some.inj hp
    obtain ⟨hshort, hsettled, ⟨rows, rfl⟩, hfile⟩ := hs
    exact ⟨hshort, ht.settled hsettled (isFile_of_find? hfile), ⟨rows, rfl⟩,
      ht.find (hfiles _ q.resolved_mem_way) hfile⟩

end Medium

/-- **A store is ready**: its configuration names a medium, and says whether to sweep; its folder is
there, and so is its operations log. -/
structure Ready (F : Path) (m : Medium) (sweeps : Bool) (d : Disk) : Prop where
  configured : ∃ c, Configured F c d ∧ (∀ plugins, Backend.medium plugins c = .ok m) ∧
    (!c.sweepOnList.isEmpty) = sweeps
  folder : ∃ folder, LeadsToFolder d F folder
  log : ∃ place, d.filePlace (F.child Backend.opsLogName) = .ok place ∧ d.isFile place = true

namespace Ready

variable {F : Path} {m : Medium} {sweeps : Bool} {d e : Disk}

theorem touched {files folders : List (List String)} (h : Ready F m sweeps d)
    (ht : Touches files folders d e) (hfile : (fileOf F).resolved ∉ files) : Ready F m sweeps e where
  configured := by
    obtain ⟨c, hc, hm⟩ := h.configured
    exact ⟨c, hc.touched ht hfile, hm⟩
  folder := by
    obtain ⟨folder, hfolder⟩ := h.folder
    exact ⟨folder, ht.leadsToFolder hfolder⟩
  log := by
    obtain ⟨place, hplace, hthere⟩ := h.log
    exact ⟨place, ht.filePlace hplace hthere, ht.stays place hthere⟩

end Ready

/-! ### The files of a store -/

/-- The place of a file of the store is in its folder. -/
theorem resolved_child (F : Path) {name : String} (h : Path.parse name = ⟨.relative, [name]⟩)
    (hup : name ≠ "..") : (F.child name).resolved = F.resolved ++ [name] := by
  rw [Path.child_of_name F h, Path.resolved_eq, Path.placeOf_concat, Path.onward, if_neg hup]
  rfl

theorem resolved_fileOf (F : Path) : (Config.fileOf F).resolved = F.resolved ++ [fileName] :=
  resolved_child F (by decide) (by decide)

theorem resolved_opsLog (F : Path) :
    (F.child Backend.opsLogName).resolved = F.resolved ++ [Backend.opsLogName] :=
  resolved_child F (by decide) (by decide)

theorem fileOf_ne_opsLog (F : Path) :
    (Config.fileOf F).resolved ≠ (F.child Backend.opsLogName).resolved := by
  rw [resolved_fileOf, resolved_opsLog]
  intro heq
  exact absurd (List.cons.inj (List.append_cancel_left heq)).1 (by decide)

/-- **What says the configuration cannot be read as a data file**: as such it would be a database, or
start with a brace. -/
theorem not_readable_of_read {m : Medium} {p : Path} {s : String} {root : Entries String Value}
    (hp : m.dataFile? = some p) (hs : Toml.read s = .ok root) : ¬ m.Readable (some (.text s)) := by
  cases m with
  | memory | foreign => cases hp
  | database q =>
    rintro ⟨rows, hrows⟩
    cases hrows
  | jsonFile q =>
    rintro ⟨entries, hentries⟩
    rw [loaded] at hentries
    split at hentries
    · rename_i table hjson
      obtain ⟨gaps, rest, htext, hgaps⟩ := Json.brace_of_read hjson
      refine Toml.not_read_of_brace htext (fun g hg => ?_) root hs
      have hgap := hgaps g hg
      simp only [Json.isGap, Bool.or_eq_true, decide_eq_true_eq, or_assoc] at hgap
      exact hgap
    · cases hentries
    · cases hentries

/-- **A store stays ready** while records are kept in it. -/
theorem keeps_ready (m : Medium) (F : Path) (sweeps : Bool) : m.Keeps (Ready F m sweeps) := by
  intro p hp d e hreadable ht h
  refine h.touched ht fun hmem => ?_
  obtain ⟨c, hc, -⟩ := h.configured
  obtain ⟨s, root, hfile, hs, -⟩ := hc.text
  rw [List.mem_singleton.1 hmem] at hfile
  rw [hfile] at hreadable
  exact not_readable_of_read hp hs hreadable

/-! ## Opening for the first time -/

section Medium
variable {c : Config} {m : Medium} {p : Path} {plugins : List Plugin}

/-- A storage with a data file is a database or a data file by name, and the file is in the folder. -/
theorem backend_of_medium (hm : Backend.medium plugins c = .ok m) (hp : m.dataFile? = some p) :
    (c.backend = .text "sqlite" ∧ Backend.fileOf c "tags.db" = .ok p ∧ m = .database p) ∨
      (c.backend = .text "json" ∧ Backend.fileOf c "tags.json" = .ok p ∧ m = .jsonFile p) := by
  rw [Backend.medium] at hm
  split at hm
  · rename_i name hname
    split at hm
    · rename_i hsqlite
      cases hfile : Backend.fileOf c "tags.db" with
      | error f =>
        rw [hfile] at hm
        cases hm
      | ok q =>
        rw [hfile] at hm
        obtain rfl := Except.ok.inj hm
        obtain rfl := Option.some.inj hp
        exact .inl ⟨hsqlite ▸ hname, rfl, rfl⟩
    · split at hm
      · rename_i hjson
        cases hfile : Backend.fileOf c "tags.json" with
        | error f =>
          rw [hfile] at hm
          cases hm
        | ok q =>
          rw [hfile] at hm
          obtain rfl := Except.ok.inj hm
          obtain rfl := Option.some.inj hp
          exact .inr ⟨hjson ▸ hname, rfl, rfl⟩
      · -- Memory has no data file, and none is known of what a plugin brings.
        split at hm
        · obtain rfl := Except.ok.inj hm
          cases hp
        · split at hm
          · obtain rfl := Except.ok.inj hm
            cases hp
          · cases hm
  · cases hm

/-- What plugins there are does not matter to a storage with a data file. -/
theorem medium_of_plugins (hm : Backend.medium plugins c = .ok m) (hp : m.dataFile? = some p)
    (others : List Plugin) : Backend.medium others c = .ok m := by
  rw [Backend.medium]
  rcases backend_of_medium hm hp with ⟨hname, hfile, rfl⟩ | ⟨hname, hfile, rfl⟩
  · rw [hname]
    dsimp only
    rw [if_pos rfl, hfile]
    rfl
  · rw [hname]
    dsimp only
    rw [if_neg (by decide), if_pos rfl, hfile]
    rfl

/-- A medium with a data file keeps an operations log. -/
theorem keepsOpsLog_of_medium (hm : Backend.medium plugins c = .ok m) (hp : m.dataFile? = some p) :
    Backend.keepsOpsLog c = true := by
  rw [Backend.keepsOpsLog, bne_iff_ne]
  rcases backend_of_medium hm hp with ⟨hname, -⟩ | ⟨hname, -⟩ <;> rw [hname] <;> decide

end Medium

/-- The operations log of a store is taken into use. -/
def useOpsLog (F : Path) : Action Disk Unit := do
  Disk.makeFolder F
  Disk.touch (F.child Backend.opsLogName)

/-- A medium with a data file is taken into use, and then the operations log is. -/
theorem openConfigured_eq {c : Config} {m : Medium} {p : Path} {plugins : List Plugin}
    (hm : Backend.medium plugins c = .ok m) (hp : m.dataFile? = some p) :
    Backend.openConfigured plugins c = (do
      World.onState m.prepare
      World.onState (Host.onDisk (useOpsLog c.folder))
      modify fun w => { w with log := w.log.attachOps }
      return m) := by
  rw [Backend.openConfigured, hm, keepsOpsLog_of_medium hm hp]
  rfl

/-- An action that leaves the disk as it is leaves the world as it is. -/
theorem runFrom_onDisk {α : Type} {act : Action Disk α} {w : World Host} {r : Except Failure α}
    (h : act.runFrom w.state.disk = (r, w.state.disk)) :
    (World.onState (Host.onDisk act)).runFrom w = (r, w) := by
  show ((act.runFrom w.state.disk).1,
    { w with state := { w.state with disk := (act.runFrom w.state.disk).2 } }) = _
  rw [h]

theorem run_of_onState {α : Type} {act : Action Host α} {w w' : World Host} {r : Except Failure α}
    (h : (World.onState act).runFrom w = (r, w')) : act.runFrom w.state = (r, w'.state) :=
  congrArg (fun out => (out.1, out.2.state)) h

theorem exists_of_openConfigured {c : Config} {m m' : Medium} {p : Path} {plugins : List Plugin}
    {w w' : World Host} (h : (Backend.openConfigured plugins c).runFrom w = (.ok m', w'))
    (hm : Backend.medium plugins c = .ok m) (hp : m.dataFile? = some p) :
    m' = m ∧ ∃ prepared, m.prepare.runFrom w.state = (.ok (), prepared) ∧
      (useOpsLog c.folder).runFrom prepared.disk = (.ok (), w'.state.disk) ∧
      w'.state = { prepared with disk := w'.state.disk } := by
  rw [openConfigured_eq hm hp] at h
  obtain ⟨⟨⟩, w₁, hprepare, h⟩ := Action.exists_of_bind_ok h
  obtain ⟨⟨⟩, w₂, hlog, h⟩ := Action.exists_of_bind_ok h
  have hstate : w₂.state = w'.state := congrArg (fun out => out.2.state) h
  have hused : ((useOpsLog c.folder).runFrom w₁.state.disk).1 = .ok () := congrArg Prod.fst hlog
  have hdisk : { w₁.state with disk := ((useOpsLog c.folder).runFrom w₁.state.disk).2 } = w'.state :=
    (congrArg (fun out => out.2.state) hlog).trans hstate
  refine ⟨(Except.ok.inj (congrArg Prod.fst h)).symm, w₁.state, run_of_onState hprepare,
    Prod.ext hused (congrArg Host.disk hdisk), ?_⟩
  rw [← hdisk]

/-- An operations log that was taken into use is there, in a folder that is there. -/
theorem log_of_useOpsLog {F : Path} {d e : Disk} (h : (useOpsLog F).runFrom d = (.ok (), e)) :
    (∃ folder, LeadsToFolder e F folder) ∧
      ∃ place, e.filePlace (F.child Backend.opsLogName) = .ok place ∧ e.isFile place = true := by
  obtain ⟨⟨⟩, d₁, hfolder, htouch⟩ := Action.exists_of_bind_ok h
  obtain ⟨folder, hmade⟩ := made_of_makeFolder hfolder
  have ht := confined_touch (F.child Backend.opsLogName) d₁
  rw [htouch] at ht
  refine ⟨⟨folder, ht.leadsToFolder hmade.toLeadsToFolder⟩, ?_⟩
  rw [runFrom_touch] at htouch
  split at htouch
  · rename_i place hplace
    obtain rfl := congrArg Prod.snd htouch
    refine ⟨place, ?_⟩
    split
    · rename_i hthere
      exact ⟨hplace, hthere⟩
    · refine ⟨filePlace_congr (d := d₁) rfl hplace, ?_⟩
      rw [isFile_setFile, decide_eq_true rfl, Bool.true_or]
  · cases htouch

theorem confined_useOpsLog (F : Path) :
    Confined [(F.child Backend.opsLogName).resolved] F.way (useOpsLog F) :=
  confined_inFolder F (confined_touch _)

/-- A log that is there is left as it is. -/
theorem Ready.useOpsLog {F : Path} {m : Medium} {sweeps : Bool} {d : Disk} (h : Ready F m sweeps d) :
    (useOpsLog F).runFrom d = (.ok (), d) := by
  obtain ⟨folder, hfolder⟩ := h.folder
  obtain ⟨place, hplace, hthere⟩ := h.log
  rw [FileTags.useOpsLog, Action.runFrom_bind, makeFolder_of_leads hfolder]
  dsimp only
  rw [runFrom_touch, hplace]
  dsimp only
  rw [if_pos hthere]

theorem connection_of_prepare {p : Path} {h h' : Host}
    (hprepare : (Medium.database p).prepare.runFrom h = (.ok (), h')) :
    (openDatabase p).runFrom h.connection = (.ok (), h'.connection) :=
  congrArg (fun out => (out.1, out.2.connection)) hprepare

/-- **The file of the configuration is no database.** -/
theorem fileOf_ne_of_openDatabase {F p : Path} {c : Config} {plugins : List Plugin} {x x' : Connection}
    (hc : Configured F c x.disk) (hm : Backend.medium plugins c = .ok (.database p))
    (h : (openDatabase p).runFrom x = (.ok (), x')) : (Config.fileOf F).resolved ≠ p.resolved := by
  intro heq
  obtain ⟨s, root, hfile, hs, hroot⟩ := hc.text
  -- Only an empty text is taken for a database, and by default the database has a name of its own.
  have hsize := size_le_of_openDatabase h (heq ▸ hfile)
  rw [Toml.read_of_size_le hsize hs] at hroot
  obtain rfl := Except.ok.inj hroot
  have hp : F.child "tags.db" = p := Medium.database.inj (Except.ok.inj hm)
  rw [← hp, resolved_fileOf, resolved_child F (by decide) (by decide)] at heq
  exact absurd (List.cons.inj (List.append_cancel_left heq)).1 (by decide)

/-- Taking a medium into use leaves the configuration alone. -/
theorem configured_of_prepare {F p : Path} {c : Config} {m : Medium} {plugins : List Plugin} {h h' : Host}
    (hc : Configured F c h.disk) (hm : Backend.medium plugins c = .ok m) (hp : m.dataFile? = some p)
    (hprepare : m.prepare.runFrom h = (.ok (), h')) : Configured F c h'.disk := by
  cases m with
  | memory | foreign => cases hp
  | jsonFile q =>
    obtain rfl : h = h' := congrArg Prod.snd hprepare
    exact hc
  | database q =>
    have hopen := connection_of_prepare hprepare
    exact hc.touched (touches_of_openDatabase hopen) fun hmem =>
      fileOf_ne_of_openDatabase hc hm hopen (List.mem_singleton.1 hmem)

namespace Command.Setting

variable {s : Setting} {chosen : Option String} {F p : Path} {m : Medium} {t : Tagger Host}
  {w w' : World Host}

/-- The medium of the store that is named, as it is configured on a disk. -/
def mediumOn (s : Setting) (chosen : Option String) (d : Disk) : Except Failure Medium := do
  let folder ← s.folder chosen
  let config ← ((Config.loadOrCreate s.printer folder s.now).runFrom d).1
  Backend.medium s.plugins config

/-- A store is opened by loading its configuration and taking its medium into use. -/
theorem exists_of_openStore (hback : ReadsBack s.printer (Config.fresh F s.now).toFields)
    (h : (s.openStore chosen).runFrom w = (.ok t, w'))
    (hF : s.folder chosen = .ok F) (hm : s.mediumOn chosen w.state.disk = .ok m)
    (hp : m.dataFile? = some p) :
    ∃ c d prepared, (Config.loadOrCreate s.printer F s.now).runFrom w.state.disk = (.ok c, d) ∧
      Backend.medium s.plugins c = .ok m ∧
      m.prepare.runFrom { w.state with disk := d } = (.ok (), prepared) ∧
      (useOpsLog F).runFrom prepared.disk = (.ok (), w'.state.disk) ∧
      w'.state = { prepared with disk := w'.state.disk } ∧
      t = ⟨m.storage, s.surroundings, !c.sweepOnList.isEmpty, s.isAlive⟩ := by
  rw [openStore, hF] at h
  obtain ⟨F', w₁, hfolder, h⟩ := Action.exists_of_bind_ok h
  obtain rfl : F = F' := Except.ok.inj (congrArg Prod.fst hfolder)
  obtain rfl : w = w₁ := congrArg Prod.snd hfolder
  obtain ⟨c, w₂, hload, h⟩ := Action.exists_of_bind_ok h
  obtain ⟨m', w₃, hopen, h⟩ := Action.exists_of_bind_ok h
  obtain rfl : w₃ = w' := congrArg Prod.snd h
  obtain rfl := Except.ok.inj (congrArg Prod.fst h)
  have hc : ((Config.loadOrCreate s.printer F s.now).runFrom w.state.disk).1 = .ok c :=
    congrArg Prod.fst hload
  have hw₂ : { w.state with disk := ((Config.loadOrCreate s.printer F s.now).runFrom w.state.disk).2 } =
      w₂.state := congrArg (fun out => out.2.state) hload
  have hconfigured : Backend.medium s.plugins c = .ok m := by
    rw [mediumOn, hF] at hm
    change ((Config.loadOrCreate s.printer F s.now).runFrom w.state.disk).1 >>= Backend.medium s.plugins =
      .ok m at hm
    rwa [hc] at hm
  obtain ⟨rfl, prepared, hprepare, hlog, hstate⟩ := exists_of_openConfigured hopen hconfigured hp
  have hfolder : c.folder = F := (configured_of_loadOrCreate hback (Prod.ext hc rfl)).folder
  rw [hfolder] at hlog
  exact ⟨c, _, prepared, Prod.ext hc rfl, hconfigured, hw₂ ▸ hprepare, hlog, hstate, rfl⟩

/-- **A store that was opened is ready**, if the text of a new configuration would be read back. -/
theorem ready_of_openStore (hback : ReadsBack s.printer (Config.fresh F s.now).toFields)
    (h : (s.openStore chosen).runFrom w = (.ok t, w'))
    (hF : s.folder chosen = .ok F) (hm : s.mediumOn chosen w.state.disk = .ok m)
    (hp : m.dataFile? = some p) :
    ∃ sweeps, t = ⟨m.storage, s.surroundings, sweeps, s.isAlive⟩ ∧ Ready F m sweeps w'.state.disk := by
  obtain ⟨c, d, prepared, hload, hconfigured, hprepare, hlog, -, ht⟩ := exists_of_openStore hback h hF hm hp
  have hc : Configured F c d := configured_of_loadOrCreate hback hload
  have hc' : Configured F c prepared.disk := configured_of_prepare hc hconfigured hp hprepare
  have htouched := confined_useOpsLog F prepared.disk
  rw [hlog] at htouched
  obtain ⟨hfolder, hthere⟩ := log_of_useOpsLog hlog
  refine ⟨_, ht, ⟨⟨c, hc'.touched htouched ?_, medium_of_plugins hconfigured hp, rfl⟩, hfolder, hthere⟩⟩
  exact fun hmem => fileOf_ne_opsLog F (List.mem_singleton.1 hmem)

/-- A database that was opened shows its rows. -/
theorem shows_of_openStore (hback : ReadsBack s.printer (Config.fresh F s.now).toFields)
    (h : (s.openStore chosen).runFrom w = (.ok t, w'))
    (hF : s.folder chosen = .ok F) (hm : s.mediumOn chosen w.state.disk = .ok (.database p))
    (hlogs : p.Apart (F.child Backend.opsLogName)) : ∃ x, (Medium.database p).Shows x w'.state := by
  obtain ⟨c, d, prepared, -, -, hprepare, hlog, hstate, -⟩ := exists_of_openStore hback h hF hm rfl
  obtain ⟨rows, hat⟩ := exists_openAt (connection_of_prepare hprepare)
  have htouched := confined_useOpsLog F prepared.disk
  rw [hlog] at htouched
  have hfile : prepared.disk.isFile p.resolved = true := isFile_of_find? hat.file
  refine ⟨_, rows, rfl, ?_, hat.short, htouched.settled hat.settled hfile, htouched.find ?_ hat.file⟩
  · rw [hstate]
    exact hat.opened
  · exact fun hmem => hlogs.resolved_ne (List.mem_singleton.1 hmem)

end Command.Setting

/-! ## Opening again -/

namespace Medium

variable {m : Medium} {x : Option Content} {p : Path} {h : Host}

/-- **A medium that holds something shows it when it is taken into use**, and what depends on other
files is kept. -/
theorem prepare_ends {K : Disk → Prop} (hK : m.Keeps K) (hx : m.Holds x h.disk) (hk : K h.disk) :
    m.prepare.Ends h (.ok ()) fun h' => m.Shows x h' ∧ K h'.disk := by
  cases m with
  | memory | foreign => exact hx.elim
  | jsonFile q => exact ⟨rfl, hx, hk⟩
  | database q =>
    obtain ⟨hshort, hsettled, ⟨rows, rfl⟩, hfile⟩ := hx
    have hopens := openDatabase_ends (c := h.connection) hshort hsettled hfile
    obtain ⟨c', hrun, hat⟩ := Action.ends_iff.1 hopens
    have hprepare : (Medium.database q).prepare.runFrom h = (.ok (), h.setConnection c') := by
      show (((openDatabase q).runFrom h.connection).1,
        h.setConnection ((openDatabase q).runFrom h.connection).2) = _
      rw [hrun]
    have hreadable : (Medium.database q).Readable (Entries.find? h.disk.files q.resolved) :=
      ⟨rows, hfile⟩
    exact Action.ends_iff.2 ⟨_, hprepare, ⟨rows, rfl, hat⟩,
      hK q rfl h.disk _ hreadable (touches_of_openDatabase hrun) hk⟩

end Medium

namespace Ready

variable {F : Path} {m : Medium} {sweeps : Bool} {d : Disk} {x : Option Content} {w : World Host}

/-- **A store that is ready is opened as it was before**: to a tagger over the same medium, which shows
what its data file holds, and the store stays ready. -/
theorem openStore (h : Ready F m sweeps w.state.disk) (hx : m.Holds x w.state.disk)
    {s : Command.Setting} {chosen : Option String} (hF : s.folder chosen = .ok F) {p : Path}
    (hp : m.dataFile? = some p) :
    (s.openStore chosen).Ends w (.ok ⟨m.storage, s.surroundings, sweeps, s.isAlive⟩) fun w' =>
      m.Shows x w'.state ∧ Ready F m sweeps w'.state.disk := by
  obtain ⟨c, hc, hm, rfl⟩ := h.configured
  have hopen : (Backend.openConfigured s.plugins c).Ends w (.ok m) fun w' =>
      m.Shows x w'.state ∧ Ready F m (!c.sweepOnList.isEmpty) w'.state.disk := by
    rw [openConfigured_eq (hm s.plugins) hp, hc.folder]
    have hprepare := World.ends_onState (m.prepare_ends (keeps_ready m F _) hx h)
    refine hprepare.bind fun w₁ hw₁ => ?_
    refine Action.ends_bind_of_run (runFrom_onDisk hw₁.2.useOpsLog) ?_
    exact Action.ends_bind_of_run rfl (Action.ends_pure hw₁)
  have hfolder : (Action.ofExcept (s.folder chosen) : Action (World Host) Path).runFrom w = (.ok F, w) := by
    rw [Action.runFrom_ofExcept, hF]
  refine Action.ends_bind_of_run hfolder ?_
  refine Action.ends_bind_of_run (runFrom_onDisk (hc.loadOrCreate s.printer s.now)) ?_
  exact hopen.bind fun w₁ hw₁ => Action.ends_pure hw₁

end Ready

end FileTags
