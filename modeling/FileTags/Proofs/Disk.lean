import FileTags.Disk
import FileTags.Proofs.Actions
import FileTags.Proofs.Entries
/-! # Places that stay

A path leads where it does because of the folders, and writing and renaming files leave the folders
alone.  So once the folder of a path has been made, everything that a storage does to its file goes
on at one place (`Settled`): the folder need not be made again, the path still leads there, and a
file that is replaced as a whole holds what it was given.
-/
namespace FileTags.Disk

variable {d e : Disk} {p : Path} {place folder : List String}

/-! ## Where a path leads -/

/-- More folders lead to the same place. -/
theorem follow_mono {t u : FileTree} (h : ∀ here, t.isFolder here = true → u.isFolder here = true)
    {names here : List String} (hp : t.follow here names = .ok place) :
    u.follow here names = .ok place := by
  induction names generalizing here with
  | nil => exact hp
  | cons name rest ih =>
    rw [FileTree.follow] at hp ⊢
    split at hp
    · rename_i hfolder
      rw [if_pos (h here hfolder)]
      split at hp
      · rename_i hname
        rw [if_pos hname]
        exact ih hp
      · rename_i hname
        rw [if_neg hname]
        exact ih hp
    · cases hp

/-- A path still leads to the same place while all folders stay, whatever else has changed. -/
theorem locate_mono (h : ∀ here, d.isFolder here = true → e.isFolder here = true)
    (hp : d.locate p = .ok place) : e.locate p = .ok place := by
  rw [locate] at hp ⊢
  split at hp
  · cases hp
  · rename_i hnul
    split at hp
    · cases hp
    · rename_i hlong
      rw [if_neg hnul, if_neg hlong]
      split at hp
      · rename_i place' hplace
        split at hp
        · cases hp
        · rename_i hname
          obtain rfl : place' = place := Except.ok.inj hp
          rw [follow_mono h hplace]
          exact if_neg hname
      · split at hp
        · cases hp
        · split at hp <;> cases hp

theorem isFolder_congr (h : e.folders = d.folders) (here : List String) :
    e.isFolder here = d.isFolder here := by
  rw [isFolder, isFolder, folderTree, folderTree, h]

theorem isFolder_addFolder {here : List String} (h : d.isFolder here = true)
    (place : List String) : (d.addFolder place).isFolder here = true := by
  simp only [isFolder, folderTree, FileTree.isFolder, Bool.or_eq_true, List.any_eq_true] at h ⊢
  obtain h | ⟨f, hmem, hf⟩ := h
  · exact .inl h
  · exact .inr ⟨f, List.mem_cons_of_mem _ hmem, hf⟩

theorem isFolder_addFolder_self (d : Disk) (place : List String) :
    (d.addFolder place).isFolder place = true := by
  simp only [isFolder, folderTree, FileTree.isFolder, Bool.or_eq_true, List.any_eq_true]
  exact .inr ⟨place, List.mem_cons_self, by simp⟩

theorem filePlace_eq_ok :
    d.filePlace p = .ok place ↔ d.locate p = .ok place ∧ d.isFolder place = false := by
  rw [filePlace]
  cases hp : d.locate p with
  | error f => exact ⟨nofun, fun h => nomatch h.1⟩
  | ok place' =>
    show (if d.isFolder place' = true then Except.error _ else Except.ok place') = .ok place ↔ _
    split
    · rename_i hfolder
      refine ⟨nofun, ?_⟩
      rintro ⟨hplace, hnot⟩
      obtain rfl : place' = place := Except.ok.inj hplace
      rw [hfolder] at hnot
      cases hnot
    · rename_i hfolder
      constructor
      · intro hplace
        obtain rfl : place' = place := Except.ok.inj hplace
        exact ⟨rfl, Bool.not_eq_true _ ▸ hfolder⟩
      · exact fun hplace => hplace.1

theorem filePlace_congr (h : e.folders = d.folders) (hp : d.filePlace p = .ok place) :
    e.filePlace p = .ok place := by
  obtain ⟨hleads, hnot⟩ := filePlace_eq_ok.1 hp
  refine filePlace_eq_ok.2 ⟨locate_mono (fun here hhere => ?_) hleads, ?_⟩
  · rw [isFolder_congr h, hhere]
  · rw [isFolder_congr h, hnot]

/-- There is something at a path when there is a file at its place. -/
theorem has_of_filePlace (h : d.filePlace p = .ok place) : d.has p = .ok (d.isFile place) := by
  obtain ⟨hleads, hnot⟩ := filePlace_eq_ok.1 h
  rw [Disk.has, hleads]
  dsimp only
  rw [hnot, Bool.false_or]

theorem read_eq_ok {c : Content} :
    d.read p = .ok c ↔ ∃ place, d.filePlace p = .ok place ∧ Entries.find? d.files place = some c := by
  rw [Disk.read]
  cases hp : d.filePlace p with
  | error f =>
    constructor
    · intro h
      cases h
    · rintro ⟨_, hplace, _⟩
      cases hplace
  | ok place =>
    simp only [bind, Except.bind, Except.ok.injEq, exists_eq_left']
    cases Entries.find? d.files place with
    | none =>
      constructor
      · intro h
        cases h
      · intro h
        cases h
    | some c' =>
      constructor
      · exact fun h => congrArg some (Except.ok.inj h)
      · exact fun h => congrArg Except.ok (Option.some.inj h)

/-! ## Making folders -/

/-- A path leads to a folder. -/
structure LeadsToFolder (d : Disk) (p : Path) (folder : List String) : Prop where
  leads : d.locate p = .ok folder
  isFolder : d.isFolder folder = true
  free : d.isFile folder = false

/-- A path leads to a folder, which may be new; no file has changed. -/
structure Made (d e : Disk) (p : Path) (folder : List String) : Prop
    extends LeadsToFolder e p folder where
  files : e.files = d.files
  renameFault : e.renameFault = d.renameFault

theorem made_of_makeOneFolder (h : (makeOneFolder p).runFrom d = (.ok (), e)) :
    ∃ folder, Made d e p folder := by
  rw [makeOneFolder, Action.runFrom_ofRun] at h
  split at h
  · cases h
  · rename_i place hp
    split at h
    · cases h
    · rename_i hfile
      have hfree : d.isFile place = false := Bool.not_eq_true _ ▸ hfile
      split at h
      · rename_i hfolder
        obtain rfl : d = e := congrArg Prod.snd h
        exact ⟨place, ⟨hp, hfolder, hfree⟩, rfl, rfl⟩
      · obtain rfl : d.addFolder place = e := congrArg Prod.snd h
        have hleads := locate_mono (fun here hhere => isFolder_addFolder hhere place) hp
        exact ⟨place, ⟨hleads, isFolder_addFolder_self d place, hfree⟩, rfl, rfl⟩

theorem unchanged_of_makeOneFolder {f : Failure} (h : (makeOneFolder p).runFrom d = (.error f, e)) :
    e = d := by
  rw [makeOneFolder, Action.runFrom_ofRun] at h
  split at h
  · exact (congrArg Prod.snd h).symm
  · split at h
    · exact (congrArg Prod.snd h).symm
    · split at h <;> cases h

theorem makeOneFolder_of_leads (h : LeadsToFolder d p folder) :
    (makeOneFolder p).runFrom d = (.ok (), d) := by
  rw [makeOneFolder, Action.runFrom_ofRun, h.leads]
  dsimp only
  rw [h.free, if_neg Bool.false_ne_true, if_pos h.isFolder]

theorem made_of_makeFolders {root : Path.Root} {names : List String}
    (h : (makeFolders root names).runFrom d = (.ok (), e)) :
    ∃ folder, Made d e ⟨root, names.reverse⟩ folder := by
  induction names generalizing e with
  | nil => exact made_of_makeOneFolder h
  | cons name above ih =>
    rw [makeFolders, Action.runFrom_bind, Action.runFrom_attempt] at h
    rcases hone : (makeOneFolder ⟨root, (name :: above).reverse⟩).runFrom d with ⟨r, d'⟩
    rw [hone] at h
    cases r with
    | ok u =>
      obtain rfl : d' = e := congrArg Prod.snd h
      exact made_of_makeOneFolder hone
    | error f =>
      obtain rfl := unchanged_of_makeOneFolder hone
      dsimp only at h
      split at h
      · rename_i heq
        cases heq
      · obtain ⟨_, _, habove, hlast⟩ := Action.exists_of_bind_ok h
        obtain ⟨_, hmade⟩ := ih habove
        obtain ⟨folder, hfolder⟩ := made_of_makeOneFolder hlast
        exact ⟨folder, hfolder.toLeadsToFolder, hfolder.files.trans hmade.files,
          hfolder.renameFault.trans hmade.renameFault⟩
      · cases h

/-- **Making a folder that succeeds leaves the path leading to it**, and all files as they were. -/
theorem made_of_makeFolder (h : (makeFolder p).runFrom d = (.ok (), e)) :
    ∃ folder, Made d e p folder := by
  obtain ⟨folder, hmade⟩ := made_of_makeFolders h
  rw [List.reverse_reverse] at hmade
  exact ⟨folder, hmade⟩

/-- A folder that is there is not made again. -/
theorem makeFolder_of_leads (h : LeadsToFolder d p folder) :
    (makeFolder p).runFrom d = (.ok (), d) := by
  have hone : (makeOneFolder ⟨p.root, p.names.reverse.reverse⟩).runFrom d = (.ok (), d) := by
    rw [List.reverse_reverse]
    exact makeOneFolder_of_leads h
  rw [makeFolder]
  cases hnames : p.names.reverse with
  | nil =>
    rw [hnames] at hone
    exact hone
  | cons name above =>
    rw [hnames] at hone
    rw [makeFolders, Action.runFrom_bind, Action.runFrom_attempt, hone]
    rfl

/-! ## Files at one place -/

theorem isFile_of_find? {c : Content} (h : Entries.find? d.files place = some c) :
    d.isFile place = true := by
  rw [isFile, Entries.has, h, Option.isSome_some]

theorem isFile_setFile (d : Disk) (place : List String) (c : Content) (here : List String) :
    (d.setFile place c).isFile here = (decide (place = here) || d.isFile here) := by
  rw [isFile, isFile, setFile, Entries.has, Entries.has, Entries.find?_put]
  by_cases h : place = here
  · rw [if_pos h, decide_eq_true h]
    rfl
  · rw [if_neg h, decide_eq_false h, Bool.false_or]

theorem isFile_removeFile (d : Disk) (place here : List String) :
    (d.removeFile place).isFile here = (!decide (place = here) && d.isFile here) := by
  rw [isFile, isFile, removeFile, Entries.has, Entries.has, Entries.find?_drop]
  by_cases h : place = here
  · rw [if_pos h, decide_eq_true h]
    rfl
  · rw [if_neg h, decide_eq_false h]
    rfl

/-- **A path is settled at a place**: its folder is there, and it leads to that place, where no
folder is. -/
structure Settled (d : Disk) (p : Path) (place : List String) : Prop where
  folder : ∃ folder, LeadsToFolder d p.parent folder
  place : d.filePlace p = .ok place

namespace Settled

/-- Files that come and go elsewhere than at folders do not matter. -/
theorem of_files (h : Settled d p place) (hfolders : e.folders = d.folders)
    (hfiles : ∀ here, d.isFolder here = true → d.isFile here = false → e.isFile here = false) :
    Settled e p place := by
  obtain ⟨folder, hfolder⟩ := h.folder
  have hmono : ∀ here, d.isFolder here = true → e.isFolder here = true := by
    intro here hhere
    rw [isFolder_congr hfolders, hhere]
  exact ⟨⟨folder, locate_mono hmono hfolder.leads, hmono _ hfolder.isFolder,
    hfiles _ hfolder.isFolder hfolder.free⟩, filePlace_congr hfolders h.place⟩

theorem setFile (h : Settled d p place) (c : Content) : Settled (d.setFile place c) p place := by
  refine h.of_files rfl fun here hfolder hfree => ?_
  have hne : place ≠ here := by
    rintro rfl
    rw [(filePlace_eq_ok.1 h.place).2] at hfolder
    cases hfolder
  rw [isFile_setFile, hfree, decide_eq_false hne, Bool.or_false]

theorem hasNul (h : Settled d p place) : p.hasNul = false := by
  have hleads := (filePlace_eq_ok.1 h.place).1
  rw [locate] at hleads
  split at hleads
  · cases hleads
  · rename_i hnul
    exact Bool.not_eq_true _ ▸ hnul

/-- There is something at the path when there is a file at its place. -/
theorem has (h : Settled d p place) : d.has p = .ok (d.isFile place) := has_of_filePlace h.place

theorem read {c : Content} (h : Settled d p place) (hc : Entries.find? d.files place = some c) :
    d.read p = .ok c := read_eq_ok.2 ⟨place, h.place, hc⟩

theorem makeFolder (h : Settled d p place) : (makeFolder p.parent).runFrom d = (.ok (), d) := by
  obtain ⟨folder, hfolder⟩ := h.folder
  exact makeFolder_of_leads hfolder

end Settled

/-- **There can be a file at the place of a path**: its folder is there or can be made, and then the
path leads to that place, where no folder is. -/
def Admits (d : Disk) (p : Path) (place : List String) : Prop :=
  (makeFolder p.parent).Ends d (.ok ()) fun e => e.filePlace p = .ok place

theorem Settled.admits (h : Settled d p place) : Admits d p place :=
  Action.ends_iff.2 ⟨d, h.makeFolder, h.place⟩

/-- Once the folder has been made the path is settled. -/
theorem Admits.settles (h : Admits d p place) :
    (makeFolder p.parent).Ends d (.ok ()) fun e =>
      Settled e p place ∧ e.files = d.files ∧ e.renameFault = d.renameFault := by
  obtain ⟨e, hrun, hplace⟩ := Action.ends_iff.1 h
  obtain ⟨folder, hmade⟩ := made_of_makeFolder hrun
  exact Action.ends_iff.2
    ⟨e, hrun, ⟨⟨folder, hmade.toLeadsToFolder⟩, hplace⟩, hmade.files, hmade.renameFault⟩

/-- Nothing is in the way of replacing the file of a path: renaming works, and names are short
enough for a new file beside it. -/
structure Replaces (d : Disk) (p : Path) : Prop where
  renames : d.renameFault = none
  name : p.lastName.utf8ByteSize + freshBytes ≤ maxNameBytes
  text : p.toText.utf8ByteSize + freshBytes ≤ maxPathBytes

instance (d : Disk) (p : Path) : Decidable (Replaces d p) :=
  decidable_of_iff (d.renameFault = none ∧ p.lastName.utf8ByteSize + freshBytes ≤ maxNameBytes ∧
    p.toText.utf8ByteSize + freshBytes ≤ maxPathBytes)
    ⟨fun ⟨renames, name, text⟩ => ⟨renames, name, text⟩, fun h => ⟨h.renames, h.name, h.text⟩⟩

/-- A new file is renamed onto the place of a path: it is gone, and its content is there. -/
theorem rename_ends (h : d.filePlace p = .ok place) (hfault : d.renameFault = none)
    {fresh : List String} {c : Content} (hfresh : Entries.find? d.files fresh = some c) :
    (rename fresh p).Ends d (.ok ()) (· = (d.removeFile fresh).setFile place c) := by
  refine Action.ends_iff.2 ⟨_, ?_, rfl⟩
  rw [rename, Action.runFrom_ofRun, hfault, h, hfresh]

theorem exists_freshBeside (h : Settled d p place) (hr : Replaces d p) :
    ∃ fresh, d.freshBeside p = .ok fresh := by
  obtain ⟨folder, hfolder⟩ := h.folder
  have hsizes : ¬ (maxNameBytes < p.lastName.utf8ByteSize + freshBytes ∨
      maxPathBytes < p.toText.utf8ByteSize + freshBytes) := by
    have hname := hr.name
    have htext := hr.text
    omega
  rw [freshBeside, hfolder.leads]
  simp only [bind, Except.bind]
  rw [if_neg hsizes]
  exact ⟨_, rfl⟩

/-- **Replacing a file puts the new content at its place**; the new file beside it is gone again. -/
theorem replace_ends (h : Settled d p place) (hr : Replaces d p) (c : Content) :
    (replace p c).Ends d (.ok ()) fun e =>
      Settled e p place ∧ Replaces e p ∧ Entries.find? e.files place = some c := by
  obtain ⟨fresh, hfresh⟩ := exists_freshBeside h hr
  have hset : (modify fun d => d.setFile fresh c : Action Disk Unit).Ends d (.ok ())
      (· = d.setFile fresh c) := ⟨rfl, rfl⟩
  have hsame : ∀ here, d.isFolder here = true → d.isFile here = false →
      ((d.setFile fresh c).removeFile fresh).isFile here = false := by
    intro here _ hfree
    rw [isFile_removeFile, isFile_setFile, hfree, Bool.or_false, Bool.not_and_self]
  have hplace : (d.setFile fresh c).filePlace p = .ok place := filePlace_congr (d := d) rfl h.place
  have hfound : Entries.find? (d.setFile fresh c).files fresh = some c := by
    rw [setFile, Entries.find?_put_self]
  rw [replace, h.hasNul, if_neg Bool.false_ne_true]
  refine Action.ends_get_bind ?_
  rw [hfresh]
  refine (Action.ends_ofExcept (.ok fresh) rfl).bind ?_
  rintro d' rfl
  refine hset.bind ?_
  rintro e rfl
  refine (rename_ends hplace hr.renames hfound).attempt.bind ?_
  rintro e rfl
  have hsettled : Settled ((d.setFile fresh c).removeFile fresh) p place := h.of_files rfl hsame
  refine Action.ends_pure ⟨hsettled.setFile c, ⟨hr.renames, hr.name, hr.text⟩, ?_⟩
  rw [setFile, Entries.find?_put_self]

end FileTags.Disk
