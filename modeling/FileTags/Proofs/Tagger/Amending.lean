import FileTags.Proofs.Tagger.Requests
/-! # Adding tags and taking them away

Tags are added to a file by reading what it has, writing a longer list and dropping what comes
twice, and they are taken from it by reading, picking and writing.  What comes of it is said by the
list alone (`Amendment.on`): names that are added follow those that are there, each where it first
comes, and names that are taken away leave the others in their order.

Amendments of a list obey the laws of sets, and the lists are equal in order too (`on_add_add` and
those after it).  Over a storage that acts as a map an amendment of a file leaves the index with the
amended list (`amendment_ends`), so the laws hold of the calls (`amends_by_set_algebra`): calls one
after another end with the answer of the one call that they come to, and leave the same records.
-/
namespace FileTags

open FileTags.Action
open Record (ofNames)

namespace Tagger

open Function (update)
open FileTags.Storage FileTags.Store

variable {σ : Type}

/-! ## Amendments of a list -/

/-- What can be done to the tags of a file that has some. -/
inductive Amendment where
  | add (names : List String)
  | drop (names : List String)

/-- Tags in order, each once. -/
structure AreTags (names : List String) : Prop where
  nodup : names.Nodup
  valid : ∀ n ∈ names, Tag.isName n = true

namespace Amendment

/-- The tags after an amendment. -/
def on (current : List String) : Amendment → List String
  | add names => current ++ (names.filter fun n => n ∉ current).eraseDups
  | drop names => current.filter fun n => n ∉ names

/-- Only tags are added.  What is taken away may be any text. -/
def Valid : Amendment → Prop
  | add names => ∀ n ∈ names, Tag.isName n = true
  | drop _ => True

variable {current : List String}

/-- Adding is what the store does: it writes the new names after the old ones and keeps the first
occurrences. -/
theorem on_add (h : current.Nodup) (names : List String) :
    on current (add names) = (current ++ names).eraseDups := by
  rw [eraseDups_append_filter, eraseDups_of_nodup h, on]

theorem areTags_on (h : AreTags current) {a : Amendment} (ha : a.Valid) :
    AreTags (on current a) := by
  cases a with
  | add names =>
    rw [on_add h.nodup]
    refine ⟨nodup_eraseDups _, fun n hn => ?_⟩
    rcases List.mem_append.1 (List.mem_eraseDups.1 hn) with hn | hn
    · exact h.valid n hn
    · exact ha n hn
  | drop names => exact ⟨h.nodup.filter _, fun n hn => h.valid n (List.mem_filter.1 hn).1⟩

theorem subset_on_add (names : List String) : names ⊆ on current (add names) := by
  intro n hn
  by_cases hc : n ∈ current
  · exact List.mem_append_left _ hc
  · have hnew : n ∈ names.filter fun n => n ∉ current := List.mem_filter.2 ⟨hn, decide_eq_true hc⟩
    exact List.mem_append_right _ (List.mem_eraseDups.2 hnew)

/-- Of names that are all there already nothing is added. -/
theorem on_add_of_subset {names : List String} (h : names ⊆ current) :
    on current (add names) = current := by
  have hnone : (names.filter fun n => n ∉ current) = [] :=
    List.filter_eq_nil_iff.2 fun n hn hnot => of_decide_eq_true hnot (h hn)
  rw [on, hnone, List.eraseDups_nil, List.append_nil]

theorem on_add_add (h : current.Nodup) (names others : List String) :
    on (on current (add names)) (add others) = on current (add (names ++ others)) := by
  rw [on_add h, on_add (nodup_eraseDups _), on_add h, ← List.append_assoc, eraseDups_append_filter,
    eraseDups_append_filter (current ++ names), eraseDups_eraseDups]
  simp only [List.mem_eraseDups]

/-- Added twice is added once. -/
theorem on_add_self (names : List String) :
    on (on current (add names)) (add names) = on current (add names) :=
  on_add_of_subset (subset_on_add names)

theorem on_drop_drop (names others : List String) :
    on (on current (drop names)) (drop others) = on current (drop (names ++ others)) := by
  rw [on, on, on, List.filter_filter]
  refine List.filter_congr fun n _ => ?_
  simp only [List.mem_append, not_or, Bool.decide_and, Bool.and_comm]

/-- In which order names are taken away makes no difference. -/
theorem on_drop_comm (names others : List String) :
    on current (drop (names ++ others)) = on current (drop (others ++ names)) := by
  refine List.filter_congr fun n _ => ?_
  simp only [List.mem_append, or_comm]

/-- Of what was added nothing is left when it is taken away. -/
theorem on_add_drop (names : List String) :
    on (on current (add names)) (drop names) = on current (drop names) := by
  have hnone : (names.filter fun n => n ∉ current).eraseDups.filter (fun n => n ∉ names) = [] := by
    refine List.filter_eq_nil_iff.2 fun n hn hnot => of_decide_eq_true hnot ?_
    exact (List.mem_filter.1 (List.mem_eraseDups.1 hn)).1
  rw [on, on, on, List.filter_append, hnone, List.append_nil]

/-- The operation of the tagger that an amendment of a file asks for. -/
def act (t : Tagger σ) (id : String) : Amendment → Action (World σ) TaggedFile
  | add names => t.tag id (.list (ofNames names)) false
  | drop names => t.untag id (some (.list (ofNames names)))

end Amendment

end Tagger

/-! ## Amendments of an index -/

theorem TagSet.ofNames?_eraseDups (names : List String) :
    TagSet.ofNames? names.eraseDups = TagSet.ofNames? names := by
  have hiff : (names.eraseDups ≠ [] ∧ ∀ n ∈ names.eraseDups, Tag.isName n = true) ↔
      (names ≠ [] ∧ ∀ n ∈ names, Tag.isName n = true) := by
    simp only [ne_eq, eraseDups_eq_nil, List.mem_eraseDups]
  by_cases h : names ≠ [] ∧ ∀ n ∈ names, Tag.isName n = true
  · simp only [ofNames?, dif_pos h, dif_pos (hiff.2 h), eraseDups_eraseDups]
  · rw [ofNames?, ofNames?, dif_neg h, dif_neg fun h' => h (hiff.1 h')]

namespace Index

open Function (update)
open FileTags.Storage FileTags.Tagger

/-- The index in which a file has some tags, and the others have theirs. -/
def having (M : Index) (id : String) (names : List String) : Index :=
  update M id (TagSet.ofNames? names)

section Having
variable {M : Index} {id : String} {names : List String}

/-- Setting tags makes a file have them, each once. -/
theorem step_set (h : ∀ n ∈ names, Tag.isName n = true) :
    M.step (.set id (ofNames names)) = M.having id names.eraseDups := by
  have hall : List.all (ofNames names) Tag.isValid = true := by
    rw [Record.all_ofNames]
    exact List.all_eq_true.2 h
  rw [step, if_pos hall, Record.texts_ofNames, having, TagSet.ofNames?_eraseDups]

theorem contents_having (h : AreTags names) :
    (M.having id names).contents = update M.contents id (recordFor names) := by
  rw [having, contents_update, TagSet.names_ofNames? h.valid, eraseDups_of_nodup h.nodup]

theorem names_having (h : AreTags names) : (M.having id names).names id = names := by
  rw [← tags_contents, contents_having h, Contents.tags, Function.update_self, getD_recordFor,
    eraseDups_of_nodup h.nodup]

theorem having_having (names others : List String) :
    (M.having id names).having id others = M.having id others := Function.update_idem ..

theorem areTags_names (M : Index) (id : String) : AreTags (M.names id) :=
  ⟨M.nodup_names id, fun _ => isName_of_mem_names⟩

end Having

end Index

/-! ## Amendments of a file -/

namespace Tagger

open Function (update)
open FileTags.Storage FileTags.Store

variable {σ : Type} {R : σ → Contents → Prop} {t : Tagger σ} {w : World σ} {M : Index} {id : String}

/-- An identity that stands for itself is not too long to be read back. -/
theorem readBack_kept {s : Surroundings} (hid : Identity.normalize s id = .ok id)
    (names : List String) : readBack id names = .ok ⟨id, ofNames names.eraseDups⟩ := by
  have hagain := Identity.normalize_normalized hid s
  rw [hid] at hagain
  by_cases hlong : Identity.maxLength < id.length
  · rw [if_pos hlong] at hagain
    cases hagain
  · rw [readBack, if_neg hlong]

/-- What comes of an amendment by the index: the file is answered with as it then is. -/
def amended (M : Index) (id : String) (a : Amendment) : Index.Outcome TaggedFile :=
  (.ok ⟨id, ofNames (a.on (M.names id))⟩, M.having id (a.on (M.names id)))

section Outcomes
variable {s : Surroundings} (hid : Identity.normalize s id = .ok id)
include hid

theorem readBack_having {names : List String} (h : AreTags names) :
    readBack id ((M.having id names).names id) = .ok ⟨id, ofNames names⟩ := by
  rw [Index.names_having h, readBack_kept hid, eraseDups_of_nodup h.nodup]

/-- Names are added to those that are there, which were accepted before. -/
theorem tagOutcome_add {names : List String} (hv : ∀ n ∈ names, Tag.isName n = true) :
    tagOutcome s M id (.list (ofNames names)) false = amended M id (.add names) := by
  have hall : ∀ n ∈ M.names id ++ names, Tag.isName n = true :=
    List.forall_mem_append.2 ⟨fun _ => Index.isName_of_mem_names, hv⟩
  have hentries : ofNames (M.names id) ++ ofNames names = ofNames (M.names id ++ names) :=
    List.map_append.symm
  have htags : AreTags (Amendment.on (M.names id) (.add names)) :=
    Amendment.areTags_on (M.areTags_names id) hv
  rw [tagOutcome, hid]
  show Index.unlessRefused M (Tag.validateAll (ofNames (M.names id) ++ ofNames names)) (fun _ =>
    (readBack id ((M.step (.set id (ofNames (M.names id) ++ ofNames names))).names id),
      M.step (.set id (ofNames (M.names id) ++ ofNames names)))) = _
  rw [hentries, Tag.validateAll_ofNames hall, Index.step_set hall,
    ← Amendment.on_add (M.nodup_names id), Index.unlessRefused, readBack_having hid htags]
  rfl

/-- What is left of accepted names was accepted, and names can be told of. -/
theorem untagOutcome_drop (names : List String) :
    untagOutcome s M id (some (.list (ofNames names))) = amended M id (.drop names) := by
  have htags : AreTags (Amendment.on (M.names id) (.drop names)) :=
    Amendment.areTags_on (M.areTags_names id) trivial
  have hremaining : M.remaining id (ofNames names.eraseDups) =
      ofNames (Amendment.on (M.names id) (.drop names)) := by
    rw [Index.remaining, Record.filter_ofNames]
    refine congrArg ofNames (List.filter_congr fun n _ => ?_)
    rw [Value.any_same_ofNames, decide_not]
    simp
  have hset : M.step (.set id (M.remaining id (ofNames names.eraseDups))) =
      M.having id (Amendment.on (M.names id) (.drop names)) := by
    rw [hremaining, Index.step_set htags.valid, eraseDups_of_nodup htags.nodup]
  have hcollected : (Tag.collection (.list (ofNames names)) >>= Tag.dedupe) =
      .ok (ofNames names.eraseDups) := Tag.dedupe_ofNames names
  rw [untagOutcome, hid]
  simp only [Index.unlessRefused, hcollected, hset, Value.sort?_ofNames, Option.elim_some, joined,
    joinTexts_ofNames, readBack_having hid htags]
  rfl

end Outcomes

/-- **A call leaves a file with some tags**, and all other files as they were: it answers with the
file as it then is read, and the file is listed if it has any. -/
structure Leaves (t : Tagger σ) (R : σ → Contents → Prop) (m : Contents) (id : String) (w : World σ)
    (act : Action (World σ) TaggedFile) (names : List String) : Prop where
  answers : act.Ends w (.ok ⟨id, ofNames names⟩)
    fun w' => R w'.state (update m id (recordFor names))
  reads : ((t.get id).runFrom (act.runFrom w).2).1 = (act.runFrom w).1
  lists : t.sweepOnList = false → ∃ files, (t.files.runFrom (act.runFrom w).2).1 = .ok files ∧
    (id ∈ files.map TaggedFile.id ↔ names ≠ [])

/-- **Two calls come to the same**: they answer alike and leave the same records. -/
def EndAlike (R : σ → Contents → Prop) (w : World σ) (act other : Action (World σ) TaggedFile) :
    Prop :=
  ∃ f m', act.Ends w (.ok f) (fun w' => R w'.state m') ∧
    other.Ends w (.ok f) fun w' => R w'.state m'

section Ends
variable (hs : t.storage.ActsAsMap R) (hid : Identity.normalize t.surroundings id = .ok id)
include hs hid

/-- **An amendment of a file** ends as its list says, and nothing else changes. -/
theorem amendment_ends (hw : R w.state M.contents) {a : Amendment} (ha : a.Valid) :
    EndsIn R (a.act t id) w (amended M id a) := by
  cases a with
  | add names => exact tagOutcome_add hid ha ▸ tag_endsIn hs hw id (.list (ofNames names)) false
  | drop names =>
    exact untagOutcome_drop hid names ▸ untag_endsIn hs hw id (some (.list (ofNames names)))

/-- One amendment after another amends the list twice. -/
theorem amendments_end (hw : R w.state M.contents) {a b : Amendment} (ha : a.Valid) (hb : b.Valid) :
    Ends (a.act t id >>= fun _ => b.act t id) w (.ok ⟨id, ofNames (b.on (a.on (M.names id)))⟩)
      fun w' => R w'.state (M.having id (b.on (a.on (M.names id)))).contents := by
  have hfirst : EndsIn R (a.act t id) w (amended M id a) := amendment_ends hs hid hw ha
  refine Ends.bind hfirst fun w₁ hw₁ => ?_
  have hnext := amendment_ends hs hid hw₁ hb
  have htags := Amendment.areTags_on (M.areTags_names id) ha
  rw [amended, amended, Index.names_having htags, Index.having_having] at hnext
  exact hnext

/-- Calls one after another come to the one call that amends the list as they do. -/
theorem endAlike_of_on_eq (hw : R w.state M.contents) {a b c : Amendment} (ha : a.Valid)
    (hb : b.Valid) (hc : c.Valid) (h : b.on (a.on (M.names id)) = c.on (M.names id)) :
    EndAlike R w (a.act t id >>= fun _ => b.act t id) (c.act t id) := by
  have hboth := amendments_end hs hid hw ha hb
  rw [h] at hboth
  exact ⟨_, _, hboth, amendment_ends hs hid hw hc⟩

theorem leaves_amended (hw : R w.state M.contents) {a : Amendment} (ha : a.Valid) :
    Leaves t R M.contents id w (a.act t id) (a.on (M.names id)) := by
  have htags := Amendment.areTags_on (M.areTags_names id) ha
  have hends : EndsIn R (a.act t id) w (amended M id a) := amendment_ends hs hid hw ha
  refine ⟨?_, ?_, fun hoff => ?_⟩
  · rw [← Index.contents_having htags]
    exact hends
  · have hread := readBack_endsIn hs hends.2 hid
    rw [hread.1, hends.1, amended, readBack_having hid htags]
  · have hshows := hs.shows (amended M id a).2.contents
    obtain ⟨files, hf⟩ := exists_catalogue hshows hends.2
    refine ⟨files, (files_ends hshows hoff hf hends.2).1, ?_⟩
    have hnames : (amended M id a).2.contents.tags id = a.on (M.names id) := by
      rw [Index.tags_contents, amended, Index.names_having htags]
    rw [Contents.mem_ids_catalogue hf, hnames]

end Ends

/-- **Adding tags and taking them away obeys set algebra, in a stable order.**  Over a storage that
acts as a map, and from records as the store writes them: tags that are added follow those that are
there, each where it first comes; tags that are taken away, which may be any texts, leave the others
in order; and calls one after another come to the one call that the laws of sets say. -/
theorem amends_by_set_algebra (hs : t.storage.ActsAsMap R) {m : Contents} (hw : R w.state m)
    (hm : m.WellFormed) (huri : Uri.isUri id = true) (hid : Identity.check id = .ok ())
    {names others : List String} (hn : ∀ n ∈ names, Tag.isName n = true)
    (ho : ∀ n ∈ others, Tag.isName n = true) (gone lost : List String) :
    let current := (m id).getD []
    let tag names := t.tag id (.list (ofNames names)) false
    let untag names := t.untag id (some (.list (ofNames names)))
    Leaves t R m id w (tag names) (current ++ (names.filter fun n => n ∉ current).eraseDups) ∧
      Leaves t R m id w (untag gone) (current.filter fun n => n ∉ gone) ∧
      EndAlike R w (tag names >>= fun _ => tag others) (tag (names ++ others)) ∧
      EndAlike R w (untag gone >>= fun _ => untag lost) (untag (gone ++ lost)) ∧
      EndAlike R w (untag lost >>= fun _ => untag gone) (untag (gone ++ lost)) ∧
      EndAlike R w (tag names >>= fun _ => tag names) (tag names) ∧
      EndAlike R w (tag names >>= fun _ => untag names) (untag names) := by
  obtain ⟨M, rfl⟩ := Index.exists_of_wellFormed hm
  have hkept : Identity.normalize t.surroundings id = .ok id := by
    rw [Identity.normalize_uri huri, hid]
    rfl
  have hadd : (Amendment.add names).Valid := hn
  have haddOthers : (Amendment.add others).Valid := ho
  have haddBoth : (Amendment.add (names ++ others)).Valid := List.forall_mem_append.2 ⟨hn, ho⟩
  have hdrop : ∀ names, (Amendment.drop names).Valid := fun _ => trivial
  intro current tag untag
  have hcurrent : current = M.names id := by
    show (M.contents id).getD [] = M.names id
    rw [Index.contents, Index.names]
    cases M id <;> rfl
  show Leaves t R M.contents id w _ (Amendment.on current (.add names)) ∧
    Leaves t R M.contents id w _ (Amendment.on current (.drop gone)) ∧ _
  rw [hcurrent]
  refine ⟨leaves_amended hs hkept hw hadd, leaves_amended hs hkept hw (hdrop gone),
    ?_, ?_, ?_, ?_, ?_⟩
  · exact endAlike_of_on_eq hs hkept hw hadd haddOthers haddBoth
      (Amendment.on_add_add (M.nodup_names id) names others)
  · exact endAlike_of_on_eq hs hkept hw (hdrop gone) (hdrop lost) (hdrop _)
      (Amendment.on_drop_drop gone lost)
  · refine endAlike_of_on_eq hs hkept hw (hdrop lost) (hdrop gone) (hdrop _) ?_
    exact (Amendment.on_drop_drop lost gone).trans (Amendment.on_drop_comm lost gone)
  · exact endAlike_of_on_eq hs hkept hw hadd hadd hadd (Amendment.on_add_self names)
  · exact endAlike_of_on_eq hs hkept hw hadd (hdrop names) (hdrop names)
      (Amendment.on_add_drop names)

/-- Tags that overlap with those of the file and come twice, and texts that are no tags. -/
theorem amends_by_set_algebra_of_overlap :
    let t : Tagger Table := ⟨memory, ⟨"/work", { own := "/home/user" }⟩, false, fun _ => .ok true⟩
    let m : Contents := update (fun _ => none) "file:///a" (some ["x", "y"])
    let w : World Table := ⟨[("file:///a", ofNames ["x", "y"])], Log.start 0⟩
    let tag names := t.tag "file:///a" (.list (ofNames names)) false
    let untag names := t.untag "file:///a" (some (.list (ofNames names)))
    Holds w.state m ∧ m.WellFormed ∧ Uri.isUri "file:///a" = true ∧
      Identity.check "file:///a" = .ok () ∧
      (∀ n ∈ ["z", "y", "z"], Tag.isName n = true) ∧ (∀ n ∈ ["v", "x"], Tag.isName n = true) ∧
      Leaves t Holds m "file:///a" w (tag ["z", "y", "z"]) ["x", "y", "z"] ∧
      Leaves t Holds m "file:///a" w (untag ["x", "p q"]) ["y"] ∧
      EndAlike Holds w (tag ["z", "y", "z"] >>= fun _ => tag ["v", "x"])
        (tag ["z", "y", "z", "v", "x"]) ∧
      EndAlike Holds w (untag ["x", "p q"] >>= fun _ => untag ["", "y"])
        (untag ["x", "p q", "", "y"]) := by
  intro t m w tag untag
  have hw : Holds w.state m := holds_nil.put "file:///a" ["x", "y"]
  have hm : m.WellFormed := by
    intro id names h
    by_cases ha : id = "file:///a"
    · rw [ha] at h
      cases (Function.update_self ..).symm.trans h
      decide
    · cases (Function.update_of_ne ha ..).symm.trans h
  have huri : Uri.isUri "file:///a" = true := by decide
  have hid : Identity.check "file:///a" = .ok () := rfl
  have hn : ∀ n ∈ ["z", "y", "z"], Tag.isName n = true := by decide
  have ho : ∀ n ∈ ["v", "x"], Tag.isName n = true := by decide
  obtain ⟨hadd, hdrop, haddAdd, hdropDrop, -⟩ :=
    amends_by_set_algebra (t := t) memory_actsAsMap hw hm huri hid hn ho ["x", "p q"] ["", "y"]
  exact ⟨hw, hm, huri, hid, hn, ho, hadd, hdrop, haddAdd, hdropDrop⟩

end Tagger

end FileTags
