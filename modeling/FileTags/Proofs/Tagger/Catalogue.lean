import FileTags.Proofs.Storage.Contents
import FileTags.Tagger
/-! # The catalogue

What the tagger lists is the same whatever the storage is and in whatever order it names its keys:
the files that have tags, by identity.  This module says so of any storage that can be read without
a failure (`Storage.Shows`), whatever its records hold.

A view says what can be read: which keys are listed, and what is found under a key.  It has one
catalogue (`View.Catalogue`), and listing, browsing and searching are told by it alone: files are the
catalogue, tags are its groups, and a query picks from it.  All this without a sweep before listing.
-/
namespace FileTags

open FileTags.Action

/-! ## Views and their catalogues -/

namespace Storage

/-- What a storage shows: the keys that it lists, and the record that is found under a key. -/
structure View where
  Listed : String → Prop
  find : String → Option Record

namespace View

variable (v : View)

/-- The tags of an identity: what its record holds, each value once. -/
def tags (id : String) : Record := Tag.dedupeBy Value.same ((v.find id).getD [])

/-- Those of some identities that have tags, with them. -/
def tagged (ids : List String) : List (String × Record) :=
  ids.filterMap fun id => if (v.tags id).isEmpty then none else some (id, v.tags id)

/-- **The catalogue of a view**: the identities that are listed and have tags, with them, in
increasing order. -/
structure Catalogue (files : List TaggedFile) : Prop where
  sorted : files.Pairwise (·.id < ·.id)
  mem_iff : ∀ f, f ∈ files ↔ v.Listed f.id ∧ f.tags = v.tags f.id ∧ f.tags ≠ []

variable {v}

theorem tagged_cons (id : String) (ids : List String) :
    v.tagged (id :: ids) =
      if (v.tags id).isEmpty then v.tagged ids else (id, v.tags id) :: v.tagged ids := by
  by_cases h : (v.tags id).isEmpty
  · simp only [tagged, List.filterMap_cons, h, if_true]
  · simp only [tagged, List.filterMap_cons, h, Bool.false_eq_true, if_false]

theorem mem_tagged {ids : List String} {item : String × Record} :
    item ∈ v.tagged ids ↔ item.1 ∈ ids ∧ item.2 = v.tags item.1 ∧ item.2 ≠ [] := by
  obtain ⟨id, tags⟩ := item
  simp only [tagged, List.mem_filterMap]
  constructor
  · rintro ⟨id', hid, hitem⟩
    obtain ⟨hne, hpair⟩ := Option.ite_none_left_eq_some.1 hitem
    obtain ⟨rfl, rfl⟩ := Prod.mk.inj (Option.some.inj hpair)
    exact ⟨hid, rfl, fun h => hne (List.isEmpty_iff.2 h)⟩
  · rintro ⟨hid, rfl, hne⟩
    exact ⟨id, hid, if_neg fun h => hne (List.isEmpty_iff.1 h)⟩

/-- The identities of those with tags are among the given ones, in their order. -/
theorem keys_tagged_sublist (ids : List String) :
    ((v.tagged ids).map Prod.fst).Sublist ids := by
  induction ids with
  | nil => exact List.Sublist.slnil
  | cons id ids ih =>
    rw [tagged_cons]
    split
    · exact ih.cons id
    · exact ih.cons_cons id

end View

/-- **A storage can be read**: while `I` holds of its state, it shows a view.  Keys may be listed in
any order, and more than once; the values of a record can be told apart. -/
structure Shows {σ : Type} (s : Storage σ) (I : σ → Prop) (v : View) : Prop where
  keys : ∀ {t}, I t → ∃ ks, (∀ k, k ∈ ks ↔ v.Listed k) ∧ s.keys.Ends t (.ok ks) I
  read : ∀ {t k}, I t → v.Listed k → (s.read k).Ends t (.ok (v.find k)) I
  atomic : ∀ {k}, v.Listed k → ((v.find k).getD []).all Value.isAtomic = true

/-- The view of some contents. -/
def Contents.view (m : Contents) : View where
  Listed id := (m id).isSome = true
  find id := (m id).map Record.ofNames

/-- A storage that acts as a map shows what it holds. -/
theorem ActsAsMap.shows {σ : Type} {s : Storage σ} {R : σ → Contents → Prop} (hs : s.ActsAsMap R)
    (m : Contents) : s.Shows (R · m) m.view where
  keys h := by
    obtain ⟨ks, hks, hends⟩ := hs.keys h
    exact ⟨ks, hks.mem_iff, hends⟩
  read h _ := hs.read _ h
  atomic {k} _ := by
    show ((m k).map Record.ofNames |>.getD []).all Value.isAtomic = true
    cases m k with
    | none => rfl
    | some names =>
      rw [Option.map_some, Option.getD_some, Record.all_ofNames]
      exact List.all_eq_true.2 fun _ _ => rfl

/-- The view of some entries in memory. -/
def Table.view (table : Table) : View where
  Listed id := id ∈ Entries.keys table
  find id := Entries.find? table id

/-- The storage in memory shows its entries, if the values of each record can be told apart. -/
theorem memory_shows {table : Table}
    (h : ∀ k ∈ Entries.keys table, ((Entries.find? table k).getD []).all Value.isAtomic = true) :
    memory.Shows (· = table) table.view where
  keys := by
    rintro _ rfl
    exact ⟨_, fun k => Iff.rfl, rfl, rfl⟩
  read := by
    rintro _ k rfl -
    exact ⟨rfl, rfl⟩
  atomic {k} hk := h k hk

end Storage

namespace TaggedFile

/-- Files in increasing order are given by which files they are. -/
theorem eq_of_sorted {files others : List TaggedFile} (h : files.Pairwise (·.id < ·.id))
    (h' : others.Pairwise (·.id < ·.id)) (hmem : ∀ f, f ∈ files ↔ f ∈ others) : files = others := by
  have hnodup : ∀ {fs : List TaggedFile}, fs.Pairwise (·.id < ·.id) → fs.Nodup := by
    intro fs hfs
    refine hfs.imp ?_
    rintro f g hlt rfl
    exact String.lt_irrefl _ hlt
  have hperm : files.Perm others :=
    (List.perm_ext_iff_of_nodup (hnodup h) (hnodup h')).2 hmem
  exact hperm.eq_of_pairwise (fun f g _ _ hfg hgf => absurd hgf (String.lt_asymm hfg)) h h'

end TaggedFile

namespace Storage.View.Catalogue

variable {v : View} {files others : List TaggedFile}

/-- A view has one catalogue. -/
theorem unique (h : v.Catalogue files) (h' : v.Catalogue others) : files = others :=
  TaggedFile.eq_of_sorted h.sorted h'.sorted fun f => (h.mem_iff f).trans (h'.mem_iff f).symm

end Storage.View.Catalogue

/-! ## Listing the store -/

namespace Store

open FileTags.Storage

variable {σ : Type} {s : Storage σ} {I : σ → Prop} {v : View} {w : World σ}

section Shows
variable (hs : s.Shows I v) (hw : I w.state)
include hs hw

/-- A listed identity is read with its tags. -/
theorem get_shown {id : String} (hid : v.Listed id) :
    (get s id).Ends w (.ok (v.tags id)) fun w' => I w'.state := by
  refine (World.ends_onState (hs.read hw hid)).bind fun w' hw' => ?_
  rw [Tag.dedupe, if_pos (hs.atomic hid)]
  exact ends_ofExcept _ hw'

theorem tagsOfEach_shown {ids : List String} (hids : ∀ id ∈ ids, v.Listed id) :
    (tagsOfEach s ids).Ends w (.ok (v.tagged ids)) fun w' => I w'.state := by
  induction ids generalizing w with
  | nil => exact ends_pure hw
  | cons id ids ih =>
    obtain ⟨hid, hrest⟩ := List.forall_mem_cons.1 hids
    refine (get_shown hs hw hid).bind fun w₁ hw₁ => ?_
    refine (ih hw₁ hrest).bind fun w₂ hw₂ => ?_
    rw [View.tagged_cons]
    exact ends_pure hw₂

/-- Listing goes through every listed key once. -/
theorem items_shown : ∃ ks : List String, ks.Nodup ∧ (∀ k, k ∈ ks ↔ v.Listed k) ∧
    (items s).Ends w (.ok (v.tagged ks)) fun w' => I w'.state := by
  obtain ⟨ks, hks, hends⟩ := hs.keys hw
  have hlisted : ∀ k, k ∈ ks.eraseDups ↔ v.Listed k := fun k => List.mem_eraseDups.trans (hks k)
  refine ⟨ks.eraseDups, nodup_eraseDups ks, hlisted, ?_⟩
  refine (World.ends_onState hends).bind fun w' hw' => ?_
  rw [Tag.dedupeBy_eq_eraseDups]
  exact tagsOfEach_shown hs hw' fun k hk => (hlisted k).1 hk

end Shows

end Store

/-! ## Listing, browsing and searching -/

namespace Tagger

open FileTags.Storage

variable {σ : Type} {t : Tagger σ} {I : σ → Prop} {v : View} {w : World σ}
  {files : List TaggedFile}

/-- What is listed, as files in increasing order. -/
def inOrder (items : List (String × Record)) : List TaggedFile :=
  (items.mergeSort fun a b => a.1 ≤ b.1).map fun item => ⟨item.1, item.2⟩

theorem mem_inOrder {items : List (String × Record)} {f : TaggedFile} :
    f ∈ inOrder items ↔ (f.id, f.tags) ∈ items := by
  rw [inOrder, List.mem_map]
  constructor
  · rintro ⟨item, hitem, rfl⟩
    exact List.mem_mergeSort.1 hitem
  · intro h
    exact ⟨(f.id, f.tags), List.mem_mergeSort.2 h, rfl⟩

theorem sorted_inOrder {items : List (String × Record)} (h : (items.map Prod.fst).Nodup) :
    (inOrder items).Pairwise (·.id < ·.id) := by
  rw [inOrder, List.pairwise_map]
  exact pairwise_lt_mergeSort Prod.fst h

/-- In whatever order the keys were listed, those with tags come to the catalogue. -/
theorem catalogue_inOrder {ks : List String} (hnodup : ks.Nodup) (hks : ∀ k, k ∈ ks ↔ v.Listed k) :
    v.Catalogue (inOrder (v.tagged ks)) where
  sorted := sorted_inOrder (hnodup.sublist (View.keys_tagged_sublist ks))
  mem_iff f := by rw [mem_inOrder, View.mem_tagged, hks]

section Shows
variable (hs : t.storage.Shows I v)
include hs

/-- What can be read has a catalogue. -/
theorem exists_catalogue (hw : I w.state) : ∃ files, v.Catalogue files := by
  obtain ⟨ks, hnodup, hks, -⟩ := Store.items_shown hs hw
  exact ⟨_, catalogue_inOrder hnodup hks⟩

variable (hoff : t.sweepOnList = false) (hf : v.Catalogue files) (hw : I w.state)
include hoff hf hw

/-- **The files that are listed are the catalogue.** -/
theorem files_ends : t.files.Ends w (.ok files) fun w' => I w'.state := by
  obtain ⟨ks, hnodup, hks, hitems⟩ := Store.items_shown hs hw
  rw [Tagger.files, hoff, if_neg Bool.false_ne_true, hf.unique (catalogue_inOrder hnodup hks)]
  exact hitems.bind fun w' hw' => ends_pure hw'

/-- **A query picks from the catalogue** the files whose tags meet it. -/
theorem find_ends {query : String} {e : Query.Expr} (hq : Query.parse query = .ok e) :
    (t.find query).Ends w (.ok (files.filter (meets e))) fun w' => I w'.state := by
  rw [Tagger.find, hq]
  exact (files_ends hs hoff hf hw).bind fun w' hw' => ⟨rfl, hw'⟩

/-- **The tags that are listed are the groups of the catalogue**, if they have an order. -/
theorem tags_ends :
    t.tags.Ends w ((sortGroups? (groupsOf files)).elim (.error .wrongKind) .ok)
      fun w' => I w'.state := by
  refine (files_ends hs hoff hf hw).bind fun w' hw' => ?_
  dsimp only
  cases sortGroups? (groupsOf files) with
  | none => exact ⟨rfl, hw'⟩
  | some sorted => exact ⟨rfl, hw'⟩

end Shows

end Tagger

end FileTags
