import FileTags.Proofs.Query.Names
import FileTags.Proofs.Tagger.Groups
import FileTags.Proofs.Tagger.Requests
/-! # Two ways of browsing

The tags in use can be listed with their files, and the files of a tag can be searched for by its
name.  The two agree with each other and with what is stored (`browses_alike`): a tag is accepted if a
query can name it, the query that is just its name is read as that name, and both the group of a tag and
the answer to such a query are the files of the catalogue that carry it.

This holds in every world that a session comes to from an empty storage, as the storage then holds
some index, whose tags were all accepted.
-/
namespace FileTags

open FileTags.Action
open Record (ofNames)

namespace Tagger

open FileTags.Storage

variable {σ : Type} {R : σ → Contents → Prop} {t : Tagger σ} {M : Index} {w : World σ}

/-- The tags of files in the catalogue of an index are texts, each once. -/
theorem isNamed_of_catalogue {files : List TaggedFile} (hf : M.view.Catalogue files) :
    ∀ f ∈ files, IsNamed f := by
  intro f hmem
  obtain ⟨-, htags, -⟩ := (hf.mem_iff f).1 hmem
  rw [Index.view_tags] at htags
  exact ⟨_, htags, M.nodup_names f.id⟩

/-- They were accepted. -/
theorem isName_of_catalogue {files : List TaggedFile} (hf : M.view.Catalogue files)
    {f : TaggedFile} (hmem : f ∈ files) {name : String} (hname : .text name ∈ f.tags) :
    Tag.isName name = true := by
  obtain ⟨-, htags, -⟩ := (hf.mem_iff f).1 hmem
  rw [htags, Index.view_tags] at hname
  obtain ⟨n, hn, heq⟩ := List.mem_map.1 hname
  obtain rfl := Value.text.inj heq
  exact Index.isName_of_mem_names hn

/-- The identities in the catalogue of an index that carry a tag are those it is stored for. -/
theorem mem_ids_carrying {files : List TaggedFile} (hf : M.view.Catalogue files) {id name : String} :
    id ∈ (files.filter (meets (.tag name))).map TaggedFile.id ↔ name ∈ M.contents.tags id := by
  rw [Index.tags_contents, List.mem_map]
  constructor
  · rintro ⟨f, hfound, rfl⟩
    obtain ⟨hfmem, hmeets⟩ := List.mem_filter.1 hfound
    have htags := ((hf.mem_iff f).1 hfmem).2.1
    rw [meets_tag, htags, Index.view_tags] at hmeets
    exact (List.mem_map_of_injective fun _ _ => Value.text.inj).1 hmeets
  · intro hname
    let f : TaggedFile := ⟨id, ofNames (M.names id)⟩
    have hne : M.contents.tags id ≠ [] := by
      rw [Index.tags_contents]
      exact List.ne_nil_of_mem hname
    have hfmem : f ∈ files :=
      (Contents.mem_catalogue hf f).2 ⟨congrArg ofNames (Index.tags_contents M id).symm, hne⟩
    exact ⟨f, List.mem_filter.2 ⟨hfmem, meets_tag.2 (List.mem_map_of_mem hname)⟩, rfl⟩

/-- **In a world the two ways of browsing agree**: `groups` are the tags that are listed, each with the
identities that it is stored for, a query for the tag of a group finds the files of the group in the same
order, and a query for any other name that can be a tag finds nothing. -/
structure BrowsesAlike (t : Tagger σ) (w : World σ) (stored : Contents) (groups : List TagGroup) : Prop where
  lists : (t.tags.runFrom w).1 = .ok groups
  holds : ∀ id name, name ∈ stored.tags id ↔ ∃ g ∈ groups, g.tag = .text name ∧ id ∈ g.ids
  finds : ∀ g ∈ groups, ∃ name files, g.tag = .text name ∧
    ((t.find name).runFrom w).1 = .ok files ∧ files.map TaggedFile.id = g.ids
  misses : ∀ name, Tag.isName name = true → (∀ g ∈ groups, g.tag ≠ .text name) →
    ((t.find name).runFrom w).1 = .ok []

/-- Whatever index the storage holds, the two ways agree. -/
theorem exists_browsesAlike (hs : t.storage.ActsAsMap R) (hoff : t.sweepOnList = false)
    (hw : R w.state M.contents) : ∃ groups, BrowsesAlike t w M.contents groups := by
  have hshows : t.storage.Shows (fun u => R u M.contents) M.view := hs.shows M.contents
  obtain ⟨files, hf⟩ := exists_catalogue hshows hw
  have hnamed := isNamed_of_catalogue hf
  have hsorted : ∀ name, name ∈ namesInOrder (taggings files) ↔ ∃ f ∈ files, .text name ∈ f.tags :=
    fun name => mem_namesInOrder.trans (mem_names_taggings hnamed name)
  have hfind : ∀ name, Tag.isName name = true →
      ((t.find name).runFrom w).1 = .ok (files.filter (meets (.tag name))) := by
    intro name hname
    exact (find_ends hshows hoff hf hw (Query.parse_name (Query.isName_iff.1 hname).1)).1
  refine ⟨(namesInOrder (taggings files)).map (groupUnder (taggings files)), ?_, ?_, ?_, ?_⟩
  · have htags := (tags_ends hshows hoff hf hw).1
    rw [groupsOf_eq hnamed, sortGroups?_groupsFor] at htags
    exact htags
  · intro id name
    rw [← mem_ids_carrying hf, ← idsUnder_taggings hnamed]
    constructor
    · intro hid
      obtain ⟨f, hfound, -⟩ := List.mem_map.1 (idsUnder_taggings hnamed name ▸ hid)
      obtain ⟨hfmem, hmeets⟩ := List.mem_filter.1 hfound
      have hmem := (hsorted name).2 ⟨f, hfmem, meets_tag.1 hmeets⟩
      exact ⟨_, List.mem_map_of_mem hmem, rfl, hid⟩
    · rintro ⟨g, hg, htag, hid⟩
      obtain ⟨other, -, rfl⟩ := List.mem_map.1 hg
      obtain rfl := Value.text.inj htag
      exact hid
  · intro g hg
    obtain ⟨name, hname, rfl⟩ := List.mem_map.1 hg
    obtain ⟨f, hfmem, htag⟩ := (hsorted name).1 hname
    refine ⟨name, _, rfl, hfind name (isName_of_catalogue hf hfmem htag), ?_⟩
    exact (idsUnder_taggings hnamed name).symm
  · intro name hname hno
    rw [hfind name hname]
    refine congrArg Except.ok (List.filter_eq_nil_iff.2 fun f hfmem hmeets => ?_)
    -- A file that carries the name would have put it among the groups.
    have hmem := (hsorted name).2 ⟨f, hfmem, meets_tag.1 hmeets⟩
    exact hno _ (List.mem_map_of_mem hmem) rfl

/-- **Every stored tag is found by its name, and nothing else is.**  Over a storage that acts as a
map and holds nothing at first, and without a sweep before listing, the two ways of browsing agree
after every session, with each other and with what the storage then holds. -/
theorem browses_alike (hs : t.storage.ActsAsMap R) (hoff : t.sweepOnList = false)
    (hw : R w.state fun _ => none) (reqs : List Request) :
    ∃ stored groups, R (session t w reqs).2.state stored ∧
      BrowsesAlike t (session t w reqs).2 stored groups := by
  have hempty : R w.state (Index.contents fun _ => none) := hw
  obtain ⟨-, hheld⟩ := follows_session hs hoff hempty reqs
  obtain ⟨groups, hgroups⟩ := exists_browsesAlike hs hoff hheld
  exact ⟨_, groups, hheld, hgroups⟩

/-- After tags were set, carried over and taken away again, with a refusal in between. -/
theorem browses_alike_in_memory :
    let t : Tagger Table := ⟨memory, ⟨"/work", { own := "/home/user" }⟩, false, fun _ => .ok true⟩
    let reqs : List Request := [
      .change (.tag "/b" (.list [.text "x", .text "é", .text "x"]) true),
      .change (.tag "/a" (.list [.text "p q"]) true),
      .change (.tag "/a" (.list [.text "y"]) false),
      .change (.renamed "/b" "/c"),
      .change (.untag "/c" (some (.list [.text "x"])))]
    Holds [] (fun _ => none) ∧ t.sweepOnList = false ∧
      ∃ stored groups, Holds (session t ⟨[], Log.start 0⟩ reqs).2.state stored ∧
        BrowsesAlike t (session t ⟨[], Log.start 0⟩ reqs).2 stored groups := by
  intro t reqs
  exact ⟨holds_nil, rfl,
    browses_alike (t := t) (w := ⟨[], Log.start 0⟩) memory_actsAsMap rfl holds_nil reqs⟩

end Tagger

end FileTags
