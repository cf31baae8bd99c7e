import FileTags.Proofs.Disk
import FileTags.Proofs.FileTree
/-! # What an action touches

An action on a disk touches few places: it makes folders along one path and writes one file
(`Touches`), and this is so whatever it comes to (`Confined`).  No file is ever taken away, no folder
is put where a file is, and no file where a folder is.  So a file that is there stays there, and paths
that led somewhere lead there still (`Touches.filePlace`, `Touches.leadsToFolder`).

If no file is on the way and no name is too long, a folder can be made (`makeFolder_ends`).
-/
namespace FileTags.Disk

variable {d e g : Disk} {p q : Path} {place folder : List String}
  {files files' folders folders' : List (List String)}

/-! ## Where a path leads -/

theorem locate_eq_ok :
    d.locate p = .ok place ↔ p.hasNul = false ∧ p.toText.utf8ByteSize ≤ maxPathBytes ∧
      d.folderTree.follow [] p.names = .ok place ∧ endsTooLong place = false := by
  rw [locate]
  by_cases hnul : p.hasNul = true
  · rw [if_pos hnul]
    constructor
    · intro h
      cases h
    · intro h
      rw [hnul] at h
      cases h.1
  · rw [if_neg hnul]
    by_cases hlong : maxPathBytes < p.toText.utf8ByteSize
    · rw [if_pos hlong]
      constructor
      · intro h
        cases h
      · exact fun h => absurd h.2.1 (Nat.not_le_of_gt hlong)
    · rw [if_neg hlong]
      cases hfollow : d.folderTree.follow [] p.names with
      | error stop =>
        dsimp only
        constructor
        · intro h
          split at h
          · cases h
          · split at h <;> cases h
        · intro h
          cases h.2.2.1
      | ok here =>
        dsimp only
        refine ⟨fun h => ?_, fun h => ?_⟩
        · split at h
          · cases h
          · rename_i hname
            obtain rfl := Except.ok.inj h
            exact ⟨Bool.eq_false_iff.2 hnul, Nat.le_of_not_lt hlong, rfl, Bool.eq_false_iff.2 hname⟩
        · obtain ⟨-, -, hplace, hname⟩ := h
          obtain rfl := Except.ok.inj hplace
          rw [hname, if_neg Bool.false_ne_true]

/-- A path leads to the place that its names say. -/
theorem resolved_of_locate (h : d.locate p = .ok place) : p.resolved = place :=
  (FileTree.follow_eq_ok.1 (locate_eq_ok.1 h).2.2.1).1

theorem resolved_of_filePlace (h : d.filePlace p = .ok place) : p.resolved = place :=
  resolved_of_locate (filePlace_eq_ok.1 h).1

/-! ## Touching -/

/-- **A disk is touched**: some folders are made, and some files are written or made. -/
structure Touches (files folders : List (List String)) (d e : Disk) : Prop where
  grows : ∀ here, d.isFolder here = true → e.isFolder here = true
  fresh : ∀ here, e.isFolder here = true →
    d.isFolder here = true ∨ (here ∈ folders ∧ d.isFile here = false)
  elsewhere : ∀ here, here ∉ files → Entries.find? e.files here = Entries.find? d.files here
  stays : ∀ here, d.isFile here = true → e.isFile here = true
  sound : ∀ here, d.isFolder here = true → e.isFile here = true → d.isFile here = true
  renameFault : e.renameFault = d.renameFault

namespace Touches

theorem refl (files folders : List (List String)) (d : Disk) : Touches files folders d d :=
  ⟨fun _ h => h, fun _ h => .inl h, fun _ _ => rfl, fun _ h => h, fun _ _ h => h, rfl⟩

theorem isFile_eq_false (h : Touches files folders d e) {here : List String}
    (he : e.isFile here = false) : d.isFile here = false := by
  cases hd : d.isFile here with
  | false => rfl
  | true =>
    rw [h.stays here hd] at he
    cases he

theorem trans (h : Touches files folders d e) (h' : Touches files folders e g) :
    Touches files folders d g where
  grows here hhere := h'.grows here (h.grows here hhere)
  fresh here hhere := by
    rcases h'.fresh here hhere with hfolder | ⟨hmem, hfree⟩
    · exact h.fresh here hfolder
    · exact .inr ⟨hmem, h.isFile_eq_false hfree⟩
  elsewhere here hhere := (h'.elsewhere here hhere).trans (h.elsewhere here hhere)
  stays here hhere := h'.stays here (h.stays here hhere)
  sound here hfolder hfile := h.sound here hfolder (h'.sound here (h.grows here hfolder) hfile)
  renameFault := h'.renameFault.trans h.renameFault

theorem mono (h : Touches files folders d e) (hfiles : files ⊆ files') (hfolders : folders ⊆ folders') :
    Touches files' folders' d e where
  grows := h.grows
  fresh here hhere := (h.fresh here hhere).imp_right fun hnew => ⟨hfolders hnew.1, hnew.2⟩
  elsewhere here hhere := h.elsewhere here fun hmem => hhere (hfiles hmem)
  stays := h.stays
  sound := h.sound
  renameFault := h.renameFault

/-- What a file holds elsewhere is what it held. -/
theorem find {c : Content} (h : Touches files folders d e) (hplace : place ∉ files)
    (hc : Entries.find? d.files place = some c) : Entries.find? e.files place = some c :=
  (h.elsewhere place hplace).trans hc

theorem isFile_elsewhere (h : Touches files folders d e) (hplace : place ∉ files) :
    e.isFile place = d.isFile place := by
  rw [isFile, isFile, Entries.has, Entries.has, h.elsewhere place hplace]

/-- No folder is put where a file is. -/
theorem isFolder_eq_false (h : Touches files folders d e) (hfile : d.isFile place = true)
    (hnot : d.isFolder place = false) : e.isFolder place = false := by
  refine Bool.eq_false_iff.2 fun hfolder => ?_
  rcases h.fresh place hfolder with hthere | ⟨-, hfree⟩
  · rw [hthere] at hnot
    cases hnot
  · rw [hfile] at hfree
    cases hfree

/-- **A file that is there stays at the end of its path.** -/
theorem filePlace (h : Touches files folders d e) (hp : d.filePlace p = .ok place)
    (hfile : d.isFile place = true) : e.filePlace p = .ok place := by
  obtain ⟨hleads, hnot⟩ := filePlace_eq_ok.1 hp
  exact filePlace_eq_ok.2 ⟨locate_mono h.grows hleads, h.isFolder_eq_false hfile hnot⟩

/-- **A path that leads to a folder leads to it still.** -/
theorem leadsToFolder (h : Touches files folders d e) (hp : LeadsToFolder d p folder) :
    LeadsToFolder e p folder where
  leads := locate_mono h.grows hp.leads
  isFolder := h.grows folder hp.isFolder
  free := by
    refine Bool.eq_false_iff.2 fun hfile => ?_
    have hthere := h.sound folder hp.isFolder hfile
    rw [hp.free] at hthere
    cases hthere

theorem settled (h : Touches files folders d e) (hp : Settled d p place)
    (hfile : d.isFile place = true) : Settled e p place := by
  obtain ⟨folder, hfolder⟩ := hp.folder
  exact ⟨⟨folder, h.leadsToFolder hfolder⟩, h.filePlace hp.place hfile⟩

end Touches

theorem touches_setFile (h : d.isFolder place = false) (c : Content) :
    Touches [place] [] d (d.setFile place c) where
  grows _ hhere := hhere
  fresh _ hhere := .inl hhere
  elsewhere here hhere := by
    rw [setFile, Entries.find?_put, if_neg fun heq => hhere (List.mem_singleton.2 heq.symm)]
  stays here hhere := by rw [isFile_setFile, hhere, Bool.or_true]
  sound here hfolder hfile := by
    rw [isFile_setFile, Bool.or_eq_true, decide_eq_true_eq] at hfile
    refine hfile.resolve_left ?_
    rintro rfl
    rw [h] at hfolder
    cases hfolder
  renameFault := rfl

/-- A folder is made in a folder. -/
theorem touches_addFolder (h : d.locate p = .ok place) (hfree : d.isFile place = false)
    (hnot : d.isFolder place = false) : Touches [] [place] d (d.addFolder place) where
  grows _ hhere := isFolder_addFolder hhere place
  fresh here hhere := by
    by_cases heq : here = place
    · exact .inr ⟨List.mem_singleton.2 heq, heq ▸ hfree⟩
    rw [isFolder, FileTree.isFolder, Bool.or_eq_true, List.any_eq_true] at hhere
    rcases hhere with hempty | ⟨f, hmem, hf⟩
    · exact .inl (Bool.or_eq_true_iff.2 (.inl hempty))
    · rcases List.mem_cons.1 hmem with rfl | hmem
      · -- What is above the new folder was there.
        exact .inl (FileTree.isFolder_above_of_follow (locate_eq_ok.1 h).2.2.1 hnot
          (List.isPrefixOf_iff_prefix.1 hf) heq)
      · exact .inl (Bool.or_eq_true_iff.2 (.inr (List.any_eq_true.2 ⟨f, hmem, hf⟩)))
  elsewhere _ _ := rfl
  stays _ hhere := hhere
  sound _ _ hfile := hfile
  renameFault := rfl

/-! ## Actions that touch little -/

/-- **Whatever it comes to, an action touches some places only.** -/
def Confined {α : Type} (files folders : List (List String)) (act : Action Disk α) : Prop :=
  ∀ d, Touches files folders d (act.runFrom d).2

section Confined
variable {α β : Type} {act : Action Disk α} {next : α → Action Disk β}

theorem confined_pure (files folders : List (List String)) (a : α) :
    Confined files folders (pure a) := Touches.refl files folders

theorem confined_throw (files folders : List (List String)) (f : Failure) :
    Confined files folders (throw f : Action Disk α) := Touches.refl files folders

theorem Confined.bind (h : Confined files folders act) (hn : ∀ a, Confined files folders (next a)) :
    Confined files folders (act >>= next) := by
  intro d
  have hact := h d
  rw [Action.runFrom_bind]
  rcases hrun : act.runFrom d with ⟨f | a, e⟩
  · rw [hrun] at hact
    exact hact
  · rw [hrun] at hact
    exact hact.trans (hn a e)

theorem Confined.attempt (h : Confined files folders act) : Confined files folders act.attempt := h

theorem Confined.mono (h : Confined files folders act) (hfiles : files ⊆ files')
    (hfolders : folders ⊆ folders') : Confined files' folders' act :=
  fun d => (h d).mono hfiles hfolders

theorem confined_get : Confined files folders (get : Action Disk Disk) := Touches.refl files folders

end Confined

theorem confined_makeOneFolder (p : Path) : Confined [] p.way (makeOneFolder p) := by
  intro d
  rw [makeOneFolder, Action.runFrom_ofRun]
  split
  · exact Touches.refl _ _ d
  · rename_i place hp
    split
    · exact Touches.refl _ _ d
    · rename_i hfree
      split
      · exact Touches.refl _ _ d
      · rename_i hnot
        refine (touches_addFolder hp (Bool.eq_false_iff.2 hfree) (Bool.eq_false_iff.2 hnot)).mono
          (List.Subset.refl _) ?_
        rw [← resolved_of_locate hp]
        exact List.cons_subset.2 ⟨p.resolved_mem_way, List.nil_subset _⟩

/-- The path of the names before the last. -/
theorem parent_mk_reverse (root : Path.Root) (name : String) (above : List String) :
    Path.parent ⟨root, (name :: above).reverse⟩ = ⟨root, above.reverse⟩ := by
  rw [Path.parent, List.reverse_cons, List.dropLast_concat]

theorem confined_makeFolders (root : Path.Root) (names : List String) :
    Confined [] (Path.way ⟨root, names.reverse⟩) (makeFolders root names) := by
  induction names with
  | nil => exact confined_makeOneFolder _
  | cons name above ih =>
    have hone := confined_makeOneFolder ⟨root, (name :: above).reverse⟩
    have habove : Path.way ⟨root, above.reverse⟩ ⊆ Path.way ⟨root, (name :: above).reverse⟩ := by
      intro here hhere
      rw [← parent_mk_reverse root name above] at hhere
      exact Path.mem_way_of_parent hhere
    refine hone.attempt.bind fun r => ?_
    split
    · exact confined_pure _ _ _
    · exact (ih.mono (List.Subset.refl _) habove).bind fun _ => hone
    · exact confined_throw _ _ _

/-- Making a folder touches no place but those on the way to it. -/
theorem confined_makeFolder (p : Path) : Confined [] p.way (makeFolder p) := by
  have h := confined_makeFolders p.root p.names.reverse
  rwa [List.reverse_reverse] at h

/-- After a folder was made, files are written. -/
theorem confined_inFolder {α : Type} {act : Action Disk α} (p : Path) (h : Confined files [] act) :
    Confined files p.way (do makeFolder p; act) :=
  ((confined_makeFolder p).mono (List.nil_subset _) (List.Subset.refl _)).bind fun _ =>
    h.mono (List.Subset.refl _) (List.nil_subset _)

theorem runFrom_write (p : Path) (c : Content) (d : Disk) :
    (write p c).runFrom d =
      match d.filePlace p with
      | .ok place => (.ok (), d.setFile place c)
      | .error f => (.error f, d) := by
  rw [write]
  show ((Action.ofExcept (d.filePlace p) : Action Disk _) >>= _).runFrom d = _
  cases d.filePlace p <;> rfl

theorem confined_write (p : Path) (c : Content) : Confined [p.resolved] [] (write p c) := by
  intro d
  rw [runFrom_write]
  split
  · rename_i place hp
    rw [resolved_of_filePlace hp]
    exact touches_setFile (filePlace_eq_ok.1 hp).2 c
  · exact Touches.refl _ _ d

theorem runFrom_touch (p : Path) (d : Disk) :
    (touch p).runFrom d =
      match d.filePlace p with
      | .ok place => (.ok (), if d.isFile place then d else d.setFile place (.text ""))
      | .error f => (.error f, d) := by
  rw [touch]
  show ((Action.ofExcept (d.filePlace p) : Action Disk _) >>= _).runFrom d = _
  cases d.filePlace p with
  | error f => rfl
  | ok place =>
    show (if (!d.isFile place) = true then (set _ : Action Disk Unit) else pure ()).runFrom d =
      (.ok (), if d.isFile place then d else d.setFile place (.text ""))
    cases d.isFile place <;> rfl

theorem confined_touch (p : Path) : Confined [p.resolved] [] (touch p) := by
  intro d
  rw [runFrom_touch]
  split
  · rename_i place hp
    dsimp only
    split
    · exact Touches.refl _ _ d
    · rw [resolved_of_filePlace hp]
      exact touches_setFile (filePlace_eq_ok.1 hp).2 _
  · exact Touches.refl _ _ d

/-! ## Replacing a file -/

/-- A sum that no item makes smaller. -/
theorem le_foldl {α : Type} {f : Nat → α → Nat} (hgrow : ∀ n a, n ≤ f n a) (items : List α) (n : Nat) :
    n ≤ items.foldl f n := by
  induction items generalizing n with
  | nil => exact Nat.le_refl n
  | cons b items ih => exact (hgrow n b).trans (ih _)

theorem le_foldl_of_mem {α : Type} {f : Nat → α → Nat} (hgrow : ∀ n a, n ≤ f n a) {a : α} {n : Nat}
    (ha : ∀ m, n ≤ f m a) {items : List α} (hmem : a ∈ items) (m : Nat) : n ≤ items.foldl f m := by
  induction items generalizing m with
  | nil => cases hmem
  | cons b items ih =>
    rcases List.mem_cons.1 hmem with rfl | hmem
    · exact (ha m).trans (le_foldl hgrow items _)
    · exact ih hmem _

/-- How many characters the names of all files have together, as far as they are read. -/
theorem length_le_total {place : List String} {name : String} (hname : name ∈ place)
    {places : List (List String)} (hplace : place ∈ places) :
    name.length ≤ places.foldl (fun sum place =>
      place.foldl (fun sum name => sum + name.length) sum) 0 := by
  have hadd : ∀ (n : Nat) (name : String), n ≤ n + name.length := fun n name => Nat.le_add_right n _
  have hgrow : ∀ (n : Nat) (place : List String),
      n ≤ place.foldl (fun sum name => sum + name.length) n := fun n place =>
    le_foldl hadd place n
  exact le_foldl_of_mem hgrow
    (fun m => le_foldl_of_mem hadd (fun m => Nat.le_add_left _ m) hname m) hplace 0

/-- **A new file gets a name that is not in use**: it is longer than all names together. -/
theorem find?_freshBeside {fresh : List String} (h : d.freshBeside p = .ok fresh) :
    Entries.find? d.files fresh = none := by
  rw [freshBeside] at h
  cases hfolder : d.locate p.parent with
  | error f =>
    rw [hfolder] at h
    cases h
  | ok folder =>
    rw [hfolder] at h
    simp only [bind, Except.bind] at h
    split at h
    · cases h
    · rw [← Option.not_isSome_iff_eq_none, ← Entries.mem_keys_iff]
      intro hmem
      have hle := length_le_total (Except.ok.inj h ▸ List.mem_append_right _ List.mem_cons_self) hmem
      simp only [String.length_append, String.length_ofList, List.length_replicate] at hle
      omega

/-- A file that is put beside and taken away again leaves nothing. -/
theorem touches_setFile_removeFile {fresh : List String} (h : Entries.find? d.files fresh = none)
    (c : Content) : Touches [] [] d ((d.setFile fresh c).removeFile fresh) := by
  have hfind : ∀ here, Entries.find? ((d.setFile fresh c).removeFile fresh).files here =
      Entries.find? d.files here := by
    intro here
    rw [removeFile, setFile, Entries.find?_drop, Entries.find?_put]
    split
    · rename_i heq
      rw [← heq, h]
    · rfl
  have hfile : ∀ here, ((d.setFile fresh c).removeFile fresh).isFile here = d.isFile here := by
    intro here
    rw [isFile, isFile, Entries.has, Entries.has, hfind here]
  exact ⟨fun _ hhere => hhere, fun _ hhere => .inl hhere, fun here _ => hfind here,
    fun here hhere => (hfile here).trans hhere, fun here _ hhere => (hfile here).symm.trans hhere, rfl⟩

/-- A file that is renamed is where it was, or at the place of the path. -/
theorem rename_cases {fresh : List String} {c : Content} (h : Entries.find? d.files fresh = some c)
    (p : Path) : (∃ f, (rename fresh p).runFrom d = (.error f, d)) ∨ ∃ target,
      d.filePlace p = .ok target ∧
        (rename fresh p).runFrom d = (.ok (), (d.removeFile fresh).setFile target c) := by
  rw [rename, Action.runFrom_ofRun, h]
  cases d.renameFault with
  | some text => exact .inl ⟨_, rfl⟩
  | none =>
    cases d.filePlace p with
    | error f => exact .inl ⟨f, rfl⟩
    | ok target => exact .inr ⟨target, rfl, rfl⟩

/-- Replacing a file fails and leaves everything as it was, or it writes the file. -/
theorem replace_cases (p : Path) (c : Content) (d : Disk) :
    ∃ e, Touches [] [] d e ∧ ((∃ f, (replace p c).runFrom d = (.error f, e)) ∨
      ∃ target, e.filePlace p = .ok target ∧ (replace p c).runFrom d = (.ok (), e.setFile target c)) := by
  rw [replace]
  by_cases hnul : p.hasNul = true
  · exact ⟨d, Touches.refl _ _ d, .inl ⟨.nulInPath, by rw [if_pos hnul]; rfl⟩⟩
  rw [if_neg hnul]
  have hget : (get : Action Disk Disk).runFrom d = (.ok d, d) := rfl
  rw [Action.runFrom_bind, hget]
  dsimp only
  rw [Action.runFrom_bind, Action.runFrom_ofExcept]
  cases hfresh : d.freshBeside p with
  | error f => exact ⟨d, Touches.refl _ _ d, .inl ⟨f, rfl⟩⟩
  | ok fresh =>
    have hset : (modify fun d => d.setFile fresh c : Action Disk Unit).runFrom d =
      (.ok (), d.setFile fresh c) := rfl
    have hfound : Entries.find? (d.setFile fresh c).files fresh = some c := Entries.find?_put_self ..
    refine ⟨_, touches_setFile_removeFile (find?_freshBeside hfresh) c, ?_⟩
    dsimp only
    rw [Action.runFrom_bind, hset]
    dsimp only
    rw [Action.runFrom_bind, Action.runFrom_attempt]
    rcases rename_cases hfound p with ⟨f, hrun⟩ | ⟨target, hplace, hrun⟩
    · rw [hrun]
      exact .inl ⟨f, rfl⟩
    · rw [hrun]
      exact .inr ⟨target, filePlace_congr (d := d.setFile fresh c) rfl hplace, rfl⟩

theorem confined_replace (p : Path) (c : Content) : Confined [p.resolved] [] (replace p c) := by
  intro d
  obtain ⟨e, htouched, ⟨f, hrun⟩ | ⟨target, hplace, hrun⟩⟩ := replace_cases p c d
  · rw [hrun]
    exact htouched.mono (List.nil_subset _) (List.Subset.refl _)
  · rw [hrun, resolved_of_filePlace hplace]
    exact (htouched.mono (List.nil_subset _) (List.Subset.refl _)).trans
      (touches_setFile (filePlace_eq_ok.1 hplace).2 c)

/-! ## Folders that can be made -/

/-- No name of a path is too long, nor the whole, and it can be asked for. -/
structure Short (p : Path) : Prop where
  hasNul : p.hasNul = false
  text : p.toText.utf8ByteSize ≤ maxPathBytes
  names : ∀ name ∈ p.names, name.utf8ByteSize ≤ maxNameBytes

instance (p : Path) : Decidable (Short p) :=
  decidable_of_iff (p.hasNul = false ∧ p.toText.utf8ByteSize ≤ maxPathBytes ∧
    ∀ name ∈ p.names, name.utf8ByteSize ≤ maxNameBytes)
    ⟨fun ⟨hasNul, text, names⟩ => ⟨hasNul, text, names⟩, fun h => ⟨h.hasNul, h.text, h.names⟩⟩

theorem hasNul_eq_false_of_parent (h : p.hasNul = false) : p.parent.hasNul = false := by
  rw [Path.hasNul, List.any_eq_false] at h ⊢
  exact fun name hname => h name (List.mem_of_mem_dropLast hname)

/-- The folder of a path has a shorter text. -/
theorem utf8ByteSize_parent_toText (p : Path) :
    p.parent.toText.utf8ByteSize ≤ max 1 p.toText.utf8ByteSize := by
  obtain ⟨root, names⟩ := p
  induction names using List.reverseRecOn with
  | nil => exact Nat.le_max_right _ _
  | append_singleton names name _ =>
    rw [Path.parent, List.dropLast_concat]
    by_cases hhere : root = .relative ∧ names = []
    · rw [Path.toText, if_pos hhere]
      exact Nat.le_max_left _ _
    rw [Path.toText, if_neg hhere, Path.toText, if_neg fun h => by simp at h]
    refine le_trans ?_ (Nat.le_max_right _ _)
    by_cases hnil : names = []
    · rw [hnil, String.intercalate_nil, String.append_empty, String.utf8ByteSize_append]
      exact Nat.le_add_right _ _
    · rw [String.intercalate_append_of_ne_nil hnil (List.cons_ne_nil _ _)]
      simp only [String.utf8ByteSize_append]
      omega

theorem Short.parent (h : Short p) : Short p.parent where
  hasNul := hasNul_eq_false_of_parent h.hasNul
  text := (utf8ByteSize_parent_toText p).trans (max_le (by decide) h.text)
  names name hname := h.names name (List.mem_of_mem_dropLast hname)

/-- No place on the way of a short path has a name that is too long. -/
theorem Short.endsTooLong (h : Short p) {here : List String} (hhere : here ∈ p.way) :
    endsTooLong here = false := by
  obtain ⟨names, hnames, rfl⟩ := Path.mem_way.1 hhere
  rw [Disk.endsTooLong, decide_eq_false_iff_not, Nat.not_lt]
  rcases List.eq_nil_or_concat (Path.placeOf names) with hnil | ⟨above, last, hlast⟩
  · rw [hnil]
    decide
  · rw [List.concat_eq_append] at hlast
    rw [hlast, List.getLastD_concat]
    have hmem : last ∈ Path.placeOf names := by
      rw [hlast]
      exact List.mem_append_right _ List.mem_cons_self
    exact h.names last (hnames.subset (Path.mem_of_mem_placeOf hmem))

/-- All that a path comes by before its end are folders. -/
def Open (d : Disk) (p : Path) : Prop := ∀ here ∈ p.parent.way, d.isFolder here = true

instance (d : Disk) (p : Path) : Decidable (Open d p) :=
  inferInstanceAs (Decidable (∀ here ∈ p.parent.way, d.isFolder here = true))

theorem Touches.open (h : Touches files folders d e) (hp : Open d p) : Open e p :=
  fun here hhere => h.grows here (hp here hhere)

theorem open_of_follow (h : d.folderTree.follow [] p.names = .ok place) : Open d p :=
  (FileTree.follow_names_eq_ok.1 h).2

theorem Short.locate (h : Short p) (hopen : Open d p) : d.locate p = .ok p.resolved :=
  locate_eq_ok.2 ⟨h.hasNul, h.text, FileTree.follow_names_eq_ok.2 ⟨rfl, hopen⟩,
    h.endsTooLong p.resolved_mem_way⟩

/-- If a folder is missing on the way, and no file is in its place, that is all that is wrong. -/
theorem Short.locate_of_not_open (h : Short p) (hfree : ∀ here ∈ p.way, d.isFile here = false)
    (hopen : ¬ Open d p) : d.locate p = .error (.system (.missing p.toText)) := by
  rw [Disk.locate, h.hasNul, if_neg Bool.false_ne_true, if_neg (Nat.not_lt.2 h.text)]
  cases hfollow : d.folderTree.follow [] p.names with
  | ok place => exact absurd (open_of_follow hfollow) hopen
  | error stop =>
    have hstop : stop ∈ p.way := Path.mem_way.2 (FileTree.stop_of_follow hfollow).1
    dsimp only
    rw [h.endsTooLong hstop, if_neg Bool.false_ne_true, hfree stop hstop,
      if_neg Bool.false_ne_true]

theorem makeOneFolder_ends (h : Short p) (hopen : Open d p) (hfree : d.isFile p.resolved = false) :
    (makeOneFolder p).Ends d (.ok ()) fun e => ∀ here ∈ p.way, e.isFolder here = true := by
  have hend : ∀ e : Disk, e.isFolder p.resolved = true →
      (∀ here, d.isFolder here = true → e.isFolder here = true) →
      ∀ here ∈ p.way, e.isFolder here = true := by
    intro e hlast hgrows here hhere
    rcases Path.mem_way_iff.1 hhere with habove | rfl
    · exact hgrows here (hopen here habove)
    · exact hlast
  refine Action.ends_iff.2 ?_
  rw [makeOneFolder, Action.runFrom_ofRun, h.locate hopen]
  dsimp only
  rw [hfree, if_neg Bool.false_ne_true]
  by_cases hfolder : d.isFolder p.resolved = true
  · rw [if_pos hfolder]
    exact ⟨d, rfl, hend d hfolder fun _ hhere => hhere⟩
  · rw [if_neg hfolder]
    exact ⟨_, rfl, hend _ (isFolder_addFolder_self d _) fun _ hhere => isFolder_addFolder hhere _⟩

theorem makeFolders_ends {root : Path.Root} {names : List String}
    (h : Short ⟨root, names.reverse⟩)
    (hfree : ∀ here ∈ Path.way ⟨root, names.reverse⟩, d.isFile here = false) :
    (makeFolders root names).Ends d (.ok ()) fun e =>
      ∀ here ∈ Path.way ⟨root, names.reverse⟩, e.isFolder here = true := by
  induction names with
  | nil =>
    have hroot : Open d ⟨root, []⟩ := open_of_follow (show d.folderTree.follow [] [] = .ok [] from rfl)
    exact makeOneFolder_ends h hroot (hfree _ (Path.resolved_mem_way _))
  | cons name above ih =>
    have hparent := parent_mk_reverse root name above
    rw [makeFolders]
    by_cases hopen : Open d ⟨root, (name :: above).reverse⟩
    · have hone := makeOneFolder_ends h hopen (hfree _ (Path.resolved_mem_way _))
      exact hone.attempt.bind fun e he => Action.ends_pure he
    · have hone : (makeOneFolder ⟨root, (name :: above).reverse⟩).attempt.runFrom d =
          (.ok (.error (.system (.missing (Path.toText ⟨root, (name :: above).reverse⟩)))), d) := by
        rw [Action.runFrom_attempt, makeOneFolder, Action.runFrom_ofRun,
          h.locate_of_not_open hfree hopen]
      refine Action.ends_bind_of_run hone ?_
      have habove := ih (hparent ▸ h.parent) fun here hhere =>
        hfree here (Path.mem_way_of_parent (hparent.symm ▸ hhere))
      obtain ⟨e, hrun, he⟩ := Action.ends_iff.1 habove
      have htouched := confined_makeFolders root above d
      rw [hrun] at htouched
      refine Action.ends_bind_of_run hrun (makeOneFolder_ends h ?_ ?_)
      · rw [Open, hparent]
        exact he
      · rw [htouched.isFile_elsewhere List.not_mem_nil]
        exact hfree _ (Path.resolved_mem_way _)

/-- **A folder can be made if no file is on the way to it.**  Then there are folders all the way. -/
theorem makeFolder_ends (h : Short p) (hfree : ∀ here ∈ p.way, d.isFile here = false) :
    (makeFolder p).Ends d (.ok ()) fun e => ∀ here ∈ p.way, e.isFolder here = true := by
  have hp : Short ⟨p.root, p.names.reverse.reverse⟩ := by rwa [List.reverse_reverse]
  have hmade := makeFolders_ends (d := d) hp (by rwa [List.reverse_reverse])
  rwa [List.reverse_reverse] at hmade

end FileTags.Disk
