import FileTags.Proofs.Tagger.Catalogue
/-! # The groups of a catalogue

The groups of some files are made by going through their tags one after another.  Here they are said
by what they are made of: a tagging is the name of a tag and the file that carries it, each name has
one group, and in it are the files of its taggings in order (`groupsOf_eq`).  A file has no tag twice,
so these are just the files that a query for the name picks (`idsUnder_taggings`), and the two ways of
browsing cannot come apart.

Tags of files are texts here, each file having each at most once, as the store writes them.
-/
namespace FileTags

open FileTags.Action
open Record (ofNames)

namespace Tagger

/-- The tags of a file are texts, each once. -/
def IsNamed (f : TaggedFile) : Prop := ∃ names : List String, f.tags = ofNames names ∧ names.Nodup

/-- The names of the tags of some files in order, each with the file that carries it. -/
def taggings (files : List TaggedFile) : List (String × String) :=
  files.flatMap fun f => (f.tags.filterMap Value.text?).map fun name => (name, f.id)

/-- The files of the taggings of a name. -/
def idsUnder (ts : List (String × String)) (name : String) : List String :=
  (ts.filter fun t => t.1 = name).map Prod.snd

/-- The group of a name. -/
def groupUnder (ts : List (String × String)) (name : String) : TagGroup :=
  ⟨.text name, idsUnder ts name⟩

/-- **The groups of some taggings**: one for each name, in the order in which they first come. -/
def groupsFor (ts : List (String × String)) : List TagGroup :=
  (ts.map Prod.fst).eraseDups.map (groupUnder ts)

/-! ## One tagging more -/

section Add
variable {ts : List (String × String)} {names : List String} (name id : String)

theorem idsUnder_concat_self : idsUnder (ts ++ [(name, id)]) name = idsUnder ts name ++ [id] := by
  simp [idsUnder, List.filter_append]

theorem idsUnder_concat_of_ne {other : String} (h : name ≠ other) :
    idsUnder (ts ++ [(name, id)]) other = idsUnder ts other := by
  simp [idsUnder, List.filter_append, h]

theorem idsUnder_eq_nil (h : name ∉ ts.map Prod.fst) : idsUnder ts name = [] := by
  rw [idsUnder, List.map_eq_nil_iff, List.filter_eq_nil_iff]
  intro t ht heq
  exact h (List.mem_map.2 ⟨t, ht, of_decide_eq_true heq⟩)

/-- A file is added to the group of a name that has one. -/
theorem addToGroup_of_mem (hnodup : names.Nodup) (h : name ∈ names) :
    addToGroup (names.map (groupUnder ts)) (.text name) id =
      names.map (groupUnder (ts ++ [(name, id)])) := by
  induction names with
  | nil => cases h
  | cons n rest ih =>
    obtain ⟨hn, hrest⟩ := List.nodup_cons.1 hnodup
    rw [List.map_cons, List.map_cons, addToGroup, groupUnder]
    by_cases heq : n = name
    · subst heq
      -- The name comes once, so the groups of the other names stay as they are.
      have hothers : rest.map (groupUnder ts) = rest.map (groupUnder (ts ++ [(n, id)])) := by
        refine List.map_congr_left fun k hk => ?_
        have hne : n ≠ k := by
          rintro rfl
          exact hn hk
        rw [groupUnder, groupUnder, idsUnder_concat_of_ne n id hne]
      rw [if_pos (Value.same_text_iff.2 rfl), hothers, groupUnder, idsUnder_concat_self]
    · have hsame : ¬ Value.same (.text n) (.text name) = true := fun h =>
        heq (Value.text.inj (Value.same_text_iff.1 h)).symm
      have hmem : name ∈ rest := (List.mem_cons.1 h).resolve_left (Ne.symm heq)
      rw [if_neg hsame, ih hrest hmem, groupUnder, idsUnder_concat_of_ne name id (Ne.symm heq)]

/-- A name without a group gets one at the end. -/
theorem addToGroup_of_notMem (h : name ∉ names) :
    addToGroup (names.map (groupUnder ts)) (.text name) id =
      names.map (groupUnder (ts ++ [(name, id)])) ++ [⟨.text name, [id]⟩] := by
  induction names with
  | nil => rfl
  | cons n rest ih =>
    obtain ⟨hn, hrest⟩ := List.ne_and_not_mem_of_not_mem_cons h
    have hsame : ¬ Value.same (.text n) (.text name) = true := fun h =>
      hn (Value.text.inj (Value.same_text_iff.1 h))
    rw [List.map_cons, addToGroup, groupUnder, if_neg hsame, ih hrest, List.map_cons,
      List.cons_append, groupUnder, idsUnder_concat_of_ne name id hn]

/-- **A tagging more.** -/
theorem addToGroup_groupsFor :
    addToGroup (groupsFor ts) (.text name) id = groupsFor (ts ++ [(name, id)]) := by
  have hmem : ∀ n, n ∈ (ts.map Prod.fst).eraseDups ↔ n ∈ ts.map Prod.fst :=
    fun n => List.mem_eraseDups
  rw [groupsFor, groupsFor, List.map_append, List.map_singleton, eraseDups_concat]
  by_cases h : name ∈ ts.map Prod.fst
  · rw [if_pos h, addToGroup_of_mem name id (nodup_eraseDups _) ((hmem name).2 h)]
  · rw [if_neg h, addToGroup_of_notMem name id fun h' => h ((hmem name).1 h'), List.map_append,
      List.map_singleton, groupUnder, idsUnder_concat_self, idsUnder_eq_nil name h, List.nil_append]

end Add

/-! ## All of them -/

theorem foldl_addToGroup (ts : List (String × String)) (names : List String) (id : String) :
    (ofNames names).foldl (fun groups tag => addToGroup groups tag id) (groupsFor ts) =
      groupsFor (ts ++ names.map fun name => (name, id)) := by
  induction names generalizing ts with
  | nil =>
    rw [List.map_nil, List.append_nil]
    rfl
  | cons n ns ih =>
    show (ofNames ns).foldl _ (addToGroup (groupsFor ts) (.text n) id) = _
    rw [addToGroup_groupsFor, ih, List.map_cons, List.append_assoc, List.singleton_append]

/-- **The groups of some files are those of their taggings.** -/
theorem groupsOf_eq {files : List TaggedFile} (h : ∀ f ∈ files, IsNamed f) :
    groupsOf files = groupsFor (taggings files) := by
  have hfold : ∀ (fs : List TaggedFile) (ts : List (String × String)), (∀ f ∈ fs, IsNamed f) →
      fs.foldl (fun groups f => f.tags.foldl (fun groups tag => addToGroup groups tag f.id) groups)
        (groupsFor ts) = groupsFor (ts ++ taggings fs) := by
    intro fs
    induction fs with
    | nil =>
      intro ts _
      rw [taggings, List.flatMap_nil, List.append_nil, List.foldl_nil]
    | cons f fs ih =>
      intro ts hfs
      obtain ⟨⟨names, hnames, -⟩, hrest⟩ := List.forall_mem_cons.1 hfs
      rw [List.foldl_cons, hnames, foldl_addToGroup, ih _ hrest, taggings, taggings,
        List.flatMap_cons, hnames, Record.texts_ofNames, List.append_assoc]
  exact hfold files [] h

/-- A file carries a tag. -/
theorem meets_tag {name : String} {f : TaggedFile} :
    meets (.tag name) f = true ↔ .text name ∈ f.tags := by
  rw [meets, Query.Expr.holds, List.any_eq_true]
  constructor
  · rintro ⟨v, hv, hsame⟩
    obtain rfl := Value.same_text_iff.1 hsame
    exact hv
  · intro h
    exact ⟨_, h, Value.same_text_iff.2 rfl⟩

/-- **Under a name are the files that carry it.** -/
theorem idsUnder_taggings {files : List TaggedFile} (h : ∀ f ∈ files, IsNamed f) (name : String) :
    idsUnder (taggings files) name = (files.filter (meets (.tag name))).map TaggedFile.id := by
  induction files with
  | nil => rfl
  | cons f fs ih =>
    obtain ⟨⟨names, hnames, hnodup⟩, hrest⟩ := List.forall_mem_cons.1 h
    have hmem : .text name ∈ f.tags ↔ name ∈ names := by
      rw [hnames, ofNames, List.mem_map]
      simp
    -- A file has the tag once or not at all, so it is added once or not at all.
    have hown : idsUnder (names.map fun n => (n, f.id)) name =
        if name ∈ names then [f.id] else [] := by
      rw [idsUnder, List.filter_map, List.map_map]
      show (names.filter fun n => decide (n = name)).map (fun _ => f.id) = _
      rw [List.filter_eq, List.Nodup.count hnodup]
      split
      · rfl
      · rfl
    have hsplit : idsUnder (taggings (f :: fs)) name =
        idsUnder (names.map fun n => (n, f.id)) name ++ idsUnder (taggings fs) name := by
      rw [idsUnder, taggings, List.flatMap_cons, hnames, Record.texts_ofNames, List.filter_append,
        List.map_append]
      rfl
    rw [hsplit, hown, ih hrest]
    by_cases hname : name ∈ names
    · rw [if_pos hname, List.filter_cons_of_pos (meets_tag.2 (hmem.2 hname))]
      rfl
    · rw [if_neg hname, List.filter_cons_of_neg fun hm => hname (hmem.1 (meets_tag.1 hm))]
      rfl

theorem mem_names_taggings {files : List TaggedFile} (h : ∀ f ∈ files, IsNamed f) (name : String) :
    name ∈ (taggings files).map Prod.fst ↔ ∃ f ∈ files, .text name ∈ f.tags := by
  simp only [taggings, List.mem_map, List.mem_flatMap]
  constructor
  · rintro ⟨_, ⟨f, hf, n, hn, rfl⟩, rfl⟩
    obtain ⟨v, hv, htext⟩ := List.mem_filterMap.1 hn
    obtain ⟨names, hnames, -⟩ := h f hf
    rw [hnames] at hv
    obtain ⟨k, hk, rfl⟩ := List.mem_map.1 hv
    obtain rfl := Option.some.inj htext
    exact ⟨f, hf, by rw [hnames]; exact List.mem_map_of_mem hk⟩
  · rintro ⟨f, hf, htag⟩
    exact ⟨(name, f.id), ⟨f, hf, name, List.mem_filterMap.2 ⟨_, htag, rfl⟩, rfl⟩, rfl⟩

/-! ## Groups in order -/

theorem find?_groupUnder (ts : List (String × String)) {names : List String} {name : String}
    (h : name ∈ names) :
    (names.map (groupUnder ts)).find? (fun g => g.tag.same (.text name)) =
      some (groupUnder ts name) := by
  induction names with
  | nil => cases h
  | cons n ns ih =>
    rw [List.map_cons]
    by_cases heq : n = name
    · subst heq
      exact List.find?_cons_of_pos (Value.same_text_iff.2 rfl)
    · have hsame : (groupUnder ts n).tag.same (.text name) = false := Bool.eq_false_iff.2 fun h =>
        heq (Value.text.inj (Value.same_text_iff.1 h)).symm
      have hmem : name ∈ ns := (List.mem_cons.1 h).resolve_left (Ne.symm heq)
      rw [List.find?_cons, hsame]
      exact ih hmem

/-- The names of some taggings, each once and in order. -/
def namesInOrder (ts : List (String × String)) : List String :=
  (ts.map Prod.fst).eraseDups.mergeSort fun a b => a ≤ b

theorem perm_namesInOrder (ts : List (String × String)) :
    (namesInOrder ts).Perm (ts.map Prod.fst).eraseDups := List.mergeSort_perm _ _

theorem mem_namesInOrder {ts : List (String × String)} {name : String} :
    name ∈ namesInOrder ts ↔ name ∈ ts.map Prod.fst :=
  (perm_namesInOrder ts).mem_iff.trans List.mem_eraseDups

theorem pairwise_namesInOrder (ts : List (String × String)) :
    (namesInOrder ts).Pairwise (· < ·) :=
  pairwise_lt_mergeSort (fun name => name) (by rw [List.map_id']; exact nodup_eraseDups _)

/-- **The groups of names have an order**, and none is lost or changed when they are put in order. -/
theorem sortGroups?_groupsFor (ts : List (String × String)) :
    sortGroups? (groupsFor ts) = some ((namesInOrder ts).map (groupUnder ts)) := by
  have htags : (groupsFor ts).map TagGroup.tag = ofNames (ts.map Prod.fst).eraseDups := by
    rw [groupsFor, List.map_map]
    rfl
  rw [sortGroups?, htags, Value.sort?_ofNames]
  refine congrArg some ?_
  show (ofNames (namesInOrder ts)).filterMap _ = _
  rw [ofNames, List.filterMap_map, ← List.filterMap_eq_map]
  exact List.filterMap_congr fun name hname =>
    find?_groupUnder ts ((perm_namesInOrder ts).mem_iff.1 hname)

end Tagger

end FileTags
