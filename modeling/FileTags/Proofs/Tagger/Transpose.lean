import FileTags.Proofs.Tagger.Groups
import Mathlib
/-! # Files by tag, and tags by file

A storage can be listed in two ways: the files with the tags of each, and the tags with the files of
each.  The second listing is the first one turned around (`tags_transpose_files`): both are in
order, nothing in them is empty, a file is listed under a tag if and only if the tag is listed with
the file, and both have as many entries.

Whatever is listed comes from one catalogue, and the groups of its taggings are known by name.  What
is left is to count: each tagging is in one group, that of its name, so the groups together have as
many files as the files have tags (`sum_length_idsUnder`).

All that is asked of the records is that they hold texts.  Some of these may be no tags, a text may
be repeated, and a record may be empty.
-/
namespace FileTags

open FileTags.Action
open Record (ofNames)

/-- The records of a view hold texts. -/
def Storage.View.HoldsTexts (v : Storage.View) : Prop :=
  ∀ id, v.Listed id → ∀ tag ∈ (v.find id).getD [], tag.isText = true

namespace Tagger

open FileTags.Storage

variable {σ : Type} {t : Tagger σ} {I : σ → Prop} {v : View} {w : World σ}
  {files : List TaggedFile}

/-- **Groups are the transpose of files.** -/
structure Transposed (files : List TaggedFile) (groups : List TagGroup) : Prop where
  sorted : ∃ names : List String, groups.map TagGroup.tag = ofNames names ∧ names.Pairwise (· < ·)
  ne_nil : ∀ g ∈ groups, g.ids ≠ []
  ids_sorted : ∀ g ∈ groups, g.ids.Pairwise (· < ·)
  mem_iff : ∀ tag id, (∃ g ∈ groups, g.tag = tag ∧ id ∈ g.ids) ↔
    ∃ f ∈ files, f.id = id ∧ tag ∈ f.tags
  total : (groups.map fun g => g.ids.length).sum = (files.map fun f => f.tags.length).sum

/-- In a catalogue of texts the tags of files are texts, each once. -/
theorem isNamed_of_holdsTexts (hv : v.HoldsTexts) (hf : v.Catalogue files) :
    ∀ f ∈ files, IsNamed f := by
  intro f hmem
  obtain ⟨hlisted, htags, -⟩ := (hf.mem_iff f).1 hmem
  rw [View.tags, ← Record.ofNames_texts (hv f.id hlisted), Tag.dedupeBy_ofNames] at htags
  exact ⟨_, htags, nodup_eraseDups _⟩

/-! ## As many files in groups as tags on files -/

/-- Each name is counted as often as it comes. -/
theorem sum_count_eraseDups (names : List String) :
    (names.eraseDups.map fun name => names.count name).sum = names.length := by
  have hperm : names.eraseDups.Perm names.dedup :=
    (List.perm_ext_iff_of_nodup (nodup_eraseDups names) (List.nodup_dedup names)).2 fun name =>
      List.mem_eraseDups.trans List.mem_dedup.symm
  rw [(hperm.map _).sum_eq, List.sum_map_count_dedup_eq_length]

theorem length_idsUnder (ts : List (String × String)) (name : String) :
    (idsUnder ts name).length = (ts.map Prod.fst).count name := by
  rw [idsUnder, List.length_map, List.count, List.countP_map, List.countP_eq_length_filter]
  rfl

/-- **Each tagging is in one group.** -/
theorem sum_length_idsUnder (ts : List (String × String)) :
    ((namesInOrder ts).map fun name => (idsUnder ts name).length).sum = ts.length := by
  simp only [length_idsUnder]
  rw [((perm_namesInOrder ts).map _).sum_eq, sum_count_eraseDups, List.length_map]

theorem length_taggings (h : ∀ f ∈ files, IsNamed f) :
    (taggings files).length = (files.map fun f => f.tags.length).sum := by
  rw [taggings, List.length_flatMap]
  refine congrArg List.sum (List.map_congr_left fun f hf => ?_)
  obtain ⟨names, hnames, -⟩ := h f hf
  rw [List.length_map, hnames, Record.texts_ofNames, ofNames, List.length_map]

/-! ## The two listings -/

/-- The groups of files in order are their transpose. -/
theorem transposed_groups (h : ∀ f ∈ files, IsNamed f) (hsorted : files.Pairwise (·.id < ·.id)) :
    Transposed files ((namesInOrder (taggings files)).map (groupUnder (taggings files))) := by
  have hnames : ∀ name, name ∈ namesInOrder (taggings files) ↔ ∃ f ∈ files, .text name ∈ f.tags :=
    fun name => mem_namesInOrder.trans (mem_names_taggings h name)
  have hids : ∀ name id, id ∈ idsUnder (taggings files) name ↔
      ∃ f ∈ files, f.id = id ∧ .text name ∈ f.tags := by
    intro name id
    rw [idsUnder_taggings h, List.mem_map]
    constructor
    · rintro ⟨f, hf, rfl⟩
      obtain ⟨hmem, hmeets⟩ := List.mem_filter.1 hf
      exact ⟨f, hmem, rfl, meets_tag.1 hmeets⟩
    · rintro ⟨f, hmem, rfl, htag⟩
      exact ⟨f, List.mem_filter.2 ⟨hmem, meets_tag.2 htag⟩, rfl⟩
  constructor
  case sorted =>
    refine ⟨namesInOrder (taggings files), ?_, pairwise_namesInOrder _⟩
    rw [List.map_map]
    rfl
  case ne_nil =>
    refine List.forall_mem_map.2 fun name hname => ?_
    obtain ⟨f, hf, htag⟩ := (hnames name).1 hname
    exact List.ne_nil_of_mem ((hids name f.id).2 ⟨f, hf, rfl, htag⟩)
  case ids_sorted =>
    refine List.forall_mem_map.2 fun name _ => ?_
    show (idsUnder (taggings files) name).Pairwise (· < ·)
    rw [idsUnder_taggings h, List.pairwise_map]
    exact hsorted.filter _
  case mem_iff =>
    intro tag id
    constructor
    · rintro ⟨g, hg, rfl, hid⟩
      obtain ⟨name, -, rfl⟩ := List.mem_map.1 hg
      exact (hids name id).1 hid
    · rintro ⟨f, hf, rfl, htag⟩
      obtain ⟨names, hf', -⟩ := h f hf
      obtain ⟨name, -, rfl⟩ := List.mem_map.1 (hf' ▸ htag)
      have hname : name ∈ namesInOrder (taggings files) := (hnames name).2 ⟨f, hf, htag⟩
      exact ⟨_, List.mem_map_of_mem hname, rfl, (hids name f.id).2 ⟨f, hf, rfl, htag⟩⟩
  case total =>
    rw [List.map_map, ← length_taggings h]
    exact sum_length_idsUnder (taggings files)

/-- **The tags that are listed are the transpose of the files that are listed.**  Over a storage
that can be read and whose records hold texts, and without a sweep before listing: the files come in
increasing order, each with its tags, and the tags come in increasing order, each with its files. -/
theorem tags_transpose_files (hs : t.storage.Shows I v) (hv : v.HoldsTexts)
    (hoff : t.sweepOnList = false) (hw : I w.state) :
    ∃ files groups, t.files.Ends w (.ok files) (fun w' => I w'.state) ∧
      t.tags.Ends w (.ok groups) (fun w' => I w'.state) ∧
      v.Catalogue files ∧ Transposed files groups := by
  obtain ⟨files, hf⟩ := exists_catalogue hs hw
  have hnamed := isNamed_of_holdsTexts hv hf
  have htags := tags_ends hs hoff hf hw
  rw [groupsOf_eq hnamed, sortGroups?_groupsFor] at htags
  exact ⟨files, _, files_ends hs hoff hf hw, htags, hf, transposed_groups hnamed hf.sorted⟩

/-- One record repeats a tag, one holds a text that is no tag, and one holds nothing. -/
theorem tags_transpose_files_of_odd_records :
    let t : Tagger Table := ⟨memory, ⟨"/work", { own := "/home/user" }⟩, false, fun _ => .ok true⟩
    let table : Table :=
      [("b", ofNames ["x", "y", "x"]), ("c", []), ("a", ofNames ["p q", "x"])]
    memory.Shows (· = table) table.view ∧ table.view.HoldsTexts ∧ t.sweepOnList = false ∧
      ∃ files groups, t.files.Ends ⟨table, Log.start 0⟩ (.ok files) (fun w' => w'.state = table) ∧
        t.tags.Ends ⟨table, Log.start 0⟩ (.ok groups) (fun w' => w'.state = table) ∧
        table.view.Catalogue files ∧ Transposed files groups := by
  intro t table
  have hs : memory.Shows (· = table) table.view := memory_shows (by decide)
  have hv : table.view.HoldsTexts := by
    intro id hid
    have hall : ∀ k ∈ Entries.keys table, ∀ tag ∈ (Entries.find? table k).getD [],
        tag.isText = true := by decide
    exact hall id hid
  exact ⟨hs, hv, rfl, tags_transpose_files (t := t) (w := ⟨table, Log.start 0⟩) hs hv rfl rfl⟩

end Tagger

end FileTags
