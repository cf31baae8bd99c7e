import FileTags.Proofs.Disk.Touches
import FileTags.Proofs.Storage.JsonFile
/-! # A data file with nothing in its way

If nothing is in the way of a data file (`Disk.Clear`), what is loaded depends only on what the file
holds (`Clear.runFrom_loadFile`), and saving succeeds and leaves nothing in the way (`Clear.save`).
What is written elsewhere does not get in the way either (`Clear.touched`).
-/
namespace FileTags

namespace Disk

variable {d e : Disk} {p : Path} {files folders : List (List String)}

/-- **Nothing is in the way of a file**: its names are short enough for a new file beside it, no file
is where a folder has to be, and no folder is in its place; and if the file is there, its path leads to
it. -/
structure Clear (d : Disk) (p : Path) : Prop where
  short : Short p
  replaces : Replaces d p
  free : ∀ here ∈ p.parent.way, d.isFile here = false
  apart : p.resolved ∉ p.parent.way
  isFolder : d.isFolder p.resolved = false
  reached : d.isFile p.resolved = true → Open d p

instance (d : Disk) (p : Path) : Decidable (Clear d p) :=
  decidable_of_iff (Short p ∧ Replaces d p ∧ (∀ here ∈ p.parent.way, d.isFile here = false) ∧
    p.resolved ∉ p.parent.way ∧ d.isFolder p.resolved = false ∧
    (d.isFile p.resolved = true → Open d p))
    ⟨fun ⟨short, replaces, free, apart, isFolder, reached⟩ =>
      ⟨short, replaces, free, apart, isFolder, reached⟩,
      fun h => ⟨h.short, h.replaces, h.free, h.apart, h.isFolder, h.reached⟩⟩

namespace Clear

variable (h : Clear d p)
include h

theorem filePlace (hopen : Open d p) : d.filePlace p = .ok p.resolved :=
  filePlace_eq_ok.2 ⟨h.short.locate hopen, h.isFolder⟩

/-- With its folders there, the path leads to its place. -/
theorem settled (hopen : Open d p) : Settled d p p.resolved where
  folder := by
    have hfolder : ∀ here ∈ p.parent.parent.way, d.isFolder here = true := fun here hhere =>
      hopen here (Path.mem_way_of_parent hhere)
    exact ⟨p.parent.resolved, h.short.parent.locate hfolder, hopen _ p.parent.resolved_mem_way,
      h.free _ p.parent.resolved_mem_way⟩
  place := h.filePlace hopen

/-- Writing the file, and making the folders on its way, leaves nothing in the way. -/
theorem written (ht : Touches [p.resolved] p.parent.way d e) (hopen : Open e p) : Clear e p where
  short := h.short
  replaces := ⟨ht.renameFault.trans h.replaces.renames, h.replaces.name, h.replaces.text⟩
  free here hhere := by
    rw [ht.isFile_elsewhere fun hmem => h.apart (List.mem_singleton.1 hmem ▸ hhere)]
    exact h.free here hhere
  apart := h.apart
  isFolder := Bool.eq_false_iff.2 fun hfolder => by
    rcases ht.fresh _ hfolder with hthere | ⟨hway, -⟩
    · exact Bool.false_ne_true (h.isFolder.symm.trans hthere)
    · exact h.apart hway
  reached _ := hopen

/-- **What is written off the way of the file, with folders off its place, leaves nothing in the
way.** -/
theorem touched (ht : Touches files folders d e) (hfiles : ∀ here ∈ p.way, here ∉ files)
    (hfolders : p.resolved ∉ folders) : Clear e p where
  short := h.short
  replaces := ⟨ht.renameFault.trans h.replaces.renames, h.replaces.name, h.replaces.text⟩
  free here hhere := by
    rw [ht.isFile_elsewhere (hfiles here (Path.mem_way_of_parent hhere))]
    exact h.free here hhere
  apart := h.apart
  isFolder := Bool.eq_false_iff.2 fun hfolder => by
    rcases ht.fresh _ hfolder with hthere | ⟨hway, -⟩
    · exact Bool.false_ne_true (h.isFolder.symm.trans hthere)
    · exact hfolders hway
  reached hfile := by
    rw [ht.isFile_elsewhere (hfiles _ p.resolved_mem_way)] at hfile
    exact ht.open (h.reached hfile)

/-- There can be a file at the place. -/
theorem admits : Admits d p p.resolved := by
  obtain ⟨e, hrun, hopen⟩ := Action.ends_iff.1 (makeFolder_ends h.short.parent h.free)
  have ht := confined_makeFolder p.parent d
  rw [hrun] at ht
  have he : Clear e p := h.written (ht.mono (List.nil_subset _) (List.Subset.refl _)) hopen
  exact Action.ends_iff.2 ⟨e, hrun, he.filePlace hopen⟩

/-- Something is at the path when the file is there. -/
theorem has : d.has p = .ok (d.isFile p.resolved) := by
  by_cases hopen : Open d p
  · exact (h.settled hopen).has
  · -- The path leads nowhere, so the file is not there.
    have hnone : d.isFile p.resolved = false := by
      refine Bool.eq_false_iff.2 fun hfile => hopen (h.reached hfile)
    have hfree : ∀ here ∈ p.way, d.isFile here = false := by
      intro here hhere
      rcases Path.mem_way_iff.1 hhere with habove | rfl
      · exact h.free here habove
      · exact hnone
    rw [Disk.has, h.short.locate_of_not_open hfree hopen, hnone]

end Clear

end Disk

namespace Storage

open Disk

/-- Whatever a save comes to, it touches the file and the way to it only. -/
theorem confined_saveFile (p : Path) (entries : Entries String Value) :
    Confined [p.resolved] p.parent.way (saveFile p entries) := by
  have hact : Confined [p.resolved] p.parent.way (do
      Disk.makeFolder p.parent
      Disk.replace p (.text (Json.write .indented (.table entries)))) :=
    confined_inFolder p.parent (confined_replace p _)
  rw [saveFile]
  refine hact.attempt.bind fun r => ?_
  split
  · exact confined_pure _ _ _
  · exact confined_throw _ _ _
  · exact confined_throw _ _ _

end Storage

namespace Disk.Clear

open Storage

variable {d : Disk} {p : Path} (h : Clear d p)
include h

/-- What is loaded is what the file holds, also if its path does not lead to it yet. -/
theorem runFrom_loadFile :
    (loadFile p).runFrom d = (loaded p (Entries.find? d.files p.resolved), d) := by
  by_cases hopen : Open d p
  · exact loadFile_of_place (h.filePlace hopen)
  · have hnone : d.isFile p.resolved = false :=
      Bool.eq_false_iff.2 fun hfile => hopen (h.reached hfile)
    have hget : (get : Action Disk Disk).runFrom d = (.ok d, d) := rfl
    rw [loadFile, Action.runFrom_bind, hget]
    dsimp only
    rw [h.has, hnone, Option.not_isSome_iff_eq_none.1 (Bool.eq_false_iff.1 hnone)]
    rfl

/-- **A save puts the object into the file**, and leaves nothing in the way. -/
theorem save (entries : Entries String Value) : (saveFile p entries).Ends d (.ok ()) fun e =>
    Clear e p ∧ Touches [p.resolved] p.parent.way d e ∧
      Entries.find? e.files p.resolved = some (.text (Json.write .indented (.table entries))) := by
  obtain ⟨e, hrun, hsettled, -, hfile⟩ := Action.ends_iff.1 (saveFile_ends h.admits h.replaces entries)
  have ht := confined_saveFile p entries d
  rw [hrun] at ht
  refine Action.ends_iff.2 ⟨e, hrun, h.written ht ?_, ht, hfile⟩
  exact open_of_follow (locate_eq_ok.1 (filePlace_eq_ok.1 hsettled.place).1).2.2.1

end Disk.Clear

end FileTags
