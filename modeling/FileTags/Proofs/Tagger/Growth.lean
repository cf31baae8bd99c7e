import FileTags.Proofs.Query.Composition
import FileTags.Proofs.Tagger.Requests
/-! # Queries as tags come and go

A query has no "not".  So its answer can only turn from no to yes as tags are added, it is no
without any tags, and tags that it does not name make no difference (`Expr.positive`).  Chains are
no obstacle: a join holds as both or one of its sides do, and the induction is on the expression as
it was read.

What a query finds is told by the tags alone: those files whose tags meet it, for a file without
tags meets nothing (`exists_found`).  Adding leaves every file with all the tags that it had, and
taking away leaves it with no others, whatever is added or taken away, and also when the call is
refused at some point (`tag_widens`, `untag_narrows`).  So a query goes on finding what it found
when tags are added, and finds nothing new when tags are taken away (`finds_follow_tags`).
-/
namespace FileTags

open FileTags.Action
open Record (ofNames)

/-! ## Conditions without negation -/

namespace Query.Expr

/-- Whether some tags meet a condition. -/
def admits (e : Expr) (tags : List String) : Bool := e.holds fun name => tags.contains name

/-- **What holds goes on to hold** when more of its names are tagged. -/
theorem holds_mono {e : Expr} {p q : String → Bool} (h : ∀ n ∈ e.names, p n = true → q n = true)
    (he : e.holds p = true) : e.holds q = true := by
  induction e with
  | tag name =>
    rw [holds] at he ⊢
    exact h name (List.mem_singleton_self name) he
  | join op l r ihl ihr =>
    obtain ⟨hl, hr⟩ := List.forall_mem_append.1 h
    cases op with
    | both =>
      rw [holds_both, Bool.and_eq_true] at he ⊢
      exact ⟨ihl hl he.1, ihr hr he.2⟩
    | either =>
      rw [holds_either, Bool.or_eq_true] at he ⊢
      exact he.imp (ihl hl) (ihr hr)

theorem holds_none (e : Expr) : e.holds (fun _ => false) = false := by
  induction e with
  | tag name => rw [holds]
  | join op l r ihl ihr =>
    cases op with
    | both => rw [holds_both, ihl, Bool.false_and]
    | either => rw [holds_either, ihl, ihr, Bool.or_false]

theorem holds_all (e : Expr) : e.holds (fun _ => true) = true := by
  induction e with
  | tag name => rw [holds]
  | join op l r ihl ihr =>
    cases op with
    | both => rw [holds_both, ihl, ihr, Bool.and_true]
    | either => rw [holds_either, ihl, Bool.true_or]

/-- **A condition is positive**: it goes on to be met when tags are added, it is not met by no tags
and met by all that it names, and it is a matter of which of its names are among the tags. -/
structure Positive (e : Expr) : Prop where
  mono : ∀ tags others : List String, tags ⊆ others → e.admits tags = true → e.admits others = true
  none : e.admits [] = false
  all : ∀ tags : List String, e.names ⊆ tags → e.admits tags = true
  congr : ∀ tags others : List String, (∀ n ∈ e.names, n ∈ tags ↔ n ∈ others) →
    e.admits tags = e.admits others

/-- Every condition is positive. -/
theorem positive (e : Expr) : e.Positive := by
  have hmono : ∀ tags others : List String, (∀ n ∈ e.names, n ∈ tags → n ∈ others) →
      e.admits tags = true → e.admits others = true := by
    intro tags others h
    refine holds_mono fun n hn htag => ?_
    exact List.contains_iff_mem.2 (h n hn (List.contains_iff_mem.1 htag))
  refine ⟨fun tags others h => hmono tags others fun n _ htag => h htag, ?_, ?_, ?_⟩
  · exact holds_none e
  · intro tags h
    exact holds_mono (fun n hn _ => List.contains_iff_mem.2 (h hn)) (holds_all e)
  · intro tags others h
    rw [Bool.eq_iff_iff]
    exact ⟨hmono tags others fun n hn => (h n hn).1, hmono others tags fun n hn => (h n hn).2⟩

end Query.Expr

/-! ## Contents with more tags -/

namespace Storage.Contents

open Function (update)

variable {m : Contents} {id : String} {names : List String}

/-- Every identity has the tags that it has in some contents, and maybe others. -/
def Within (m m' : Contents) : Prop := ∀ id, m.tags id ⊆ m'.tags id

theorem within_refl (m : Contents) : m.Within m := fun _ => List.Subset.refl _

theorem tags_update (m : Contents) (id other : String) (names : List String) :
    tags (update m id (recordFor names)) other =
      if other = id then names.eraseDups else m.tags other := by
  by_cases h : other = id
  · rw [tags, h, Function.update_self, getD_recordFor, if_pos rfl]
  · rw [tags, Function.update_of_ne h, if_neg h, tags]

theorem within_update (h : m.tags id ⊆ names) : m.Within (update m id (recordFor names)) := by
  intro other
  rw [tags_update]
  split
  · rename_i heq
    rw [heq]
    exact fun n hn => List.mem_eraseDups.2 (h hn)
  · exact List.Subset.refl _

theorem update_within (h : names ⊆ m.tags id) : Within (update m id (recordFor names)) m := by
  intro other
  rw [tags_update]
  split
  · rename_i heq
    rw [heq]
    exact fun n hn => h (List.mem_eraseDups.1 hn)
  · exact List.Subset.refl _

end Storage.Contents

/-! ## What is found -/

namespace Tagger

open Function (update)
open FileTags.Storage FileTags.Store

variable {σ : Type} {R : σ → Contents → Prop} {t : Tagger σ} {m : Contents} {w : World σ}
  {query : String} {e : Query.Expr}

theorem meets_ofNames (e : Query.Expr) (id : String) (names : List String) :
    meets e ⟨id, ofNames names⟩ = e.admits names :=
  congrArg e.holds (funext fun name => Value.any_same_ofNames name names)

/-- **A query finds the files whose tags meet it.** -/
theorem exists_found (hs : t.storage.ActsAsMap R) (hoff : t.sweepOnList = false) (hw : R w.state m)
    (hq : Query.parse query = .ok e) :
    ∃ found, ((t.find query).runFrom w).1 = .ok found ∧
      ∀ id, id ∈ found.map TaggedFile.id ↔ e.admits (m.tags id) = true := by
  obtain ⟨files, hf⟩ := exists_catalogue (hs.shows m) hw
  refine ⟨_, (find_ends (hs.shows m) hoff hf hw hq).1, fun id => ?_⟩
  simp only [List.mem_map, List.mem_filter, Contents.mem_catalogue hf]
  constructor
  · rintro ⟨f, ⟨⟨htags, -⟩, hmeets⟩, rfl⟩
    rwa [← meets_ofNames e f.id, ← htags]
  · intro h
    -- A file without tags is not listed, but it would not meet the query either.
    have hne : m.tags id ≠ [] := by
      intro hnil
      rw [hnil, e.positive.none] at h
      cases h
    exact ⟨⟨id, ofNames (m.tags id)⟩, ⟨⟨rfl, hne⟩, (meets_ofNames e id _).trans h⟩, rfl⟩

/-- What a query finds in one world it finds in another. -/
def FindsWithin (t : Tagger σ) (query : String) (w w' : World σ) : Prop :=
  ∃ found found', ((t.find query).runFrom w).1 = .ok found ∧
    ((t.find query).runFrom w').1 = .ok found' ∧
    found.map TaggedFile.id ⊆ found'.map TaggedFile.id

theorem findsWithin_of_within (hs : t.storage.ActsAsMap R) (hoff : t.sweepOnList = false)
    {w' : World σ} {m' : Contents} (hw : R w.state m) (hw' : R w'.state m') (h : m.Within m')
    (hq : Query.parse query = .ok e) : FindsWithin t query w w' := by
  obtain ⟨found, hfound, hmem⟩ := exists_found hs hoff hw hq
  obtain ⟨found', hfound', hmem'⟩ := exists_found hs hoff hw' hq
  refine ⟨found, found', hfound, hfound', fun id hid => ?_⟩
  exact (hmem' id).2 (e.positive.mono _ _ (h id) ((hmem id).1 hid))

/-! ## What a call leaves

A call may be refused at any point, also after it has written.  So it is followed for what the
storage holds in the end, whatever the result is. -/

/-- In the end the storage holds contents with some property. -/
def Leaving {α : Type} (R : σ → Contents → Prop) (P : Contents → Prop)
    (out : Except Failure α × World σ) : Prop := ∃ m', R out.2.state m' ∧ P m'

/-- Telling of a file and reading it back changes nothing. -/
theorem noted_kept (hs : t.storage.ActsAsMap R) (m : Contents) (text id : String) :
    Kept (R · m) (do
      note .info text
      t.get id) := by
  have hnote : Kept (R · m) (note .info text) := fun w hw => ⟨hw, trivial⟩
  have hget : ∀ identity, Kept (R · m) (Store.get t.storage identity) :=
    fun identity w hw => ⟨(Store.get_held hs hw identity).2, trivial⟩
  refine kept_bind hnote fun _ _ => ?_
  refine kept_bind (kept_ofExcept _) fun identity _ => ?_
  exact kept_bind (hget identity) fun _ _ => kept_pure _

section Leaving
variable {α β : Type} {P : Contents → Prop}

/-- A refusal leaves what there was. -/
theorem leaving_ofExcept_bind {r : Except Failure α} {next : α → Action (World σ) β}
    (hw : R w.state m) (hP : P m) (hn : ∀ a, r = .ok a → Leaving R P ((next a).runFrom w)) :
    Leaving R P ((Action.ofExcept r >>= next).runFrom w) := by
  cases r with
  | error f => exact ⟨m, hw, hP⟩
  | ok a => exact hn a rfl

/-- Setting tags is what changes the contents, if the tags are accepted. -/
theorem leaving_set (hs : t.storage.ActsAsMap R) (hw : R w.state m) (hP : P m) {id : String}
    {entries : List Value} {rest : Action (World σ) α}
    (hset : ∀ names, entries = ofNames names → P (update m id (recordFor names.eraseDups)))
    (hrest : ∀ m', Kept (R · m') rest) :
    Leaving R P ((Store.set t.storage id entries >>= fun _ => rest).runFrom w) := by
  by_cases hv : ∀ v ∈ entries, Tag.isValid v = true
  · obtain ⟨names, rfl, hn⟩ := Tag.exists_names hv
    refine (Store.set_held hs hw id hn).bind_run fun w₁ hw₁ => ?_
    exact ⟨_, (hrest _ w₁ hw₁).1, hset names rfl⟩
  · have hrefused : (Store.set t.storage id entries >>= fun _ => rest).Ends w _
        fun w' => R w'.state m := (Store.set_invalid hw hv).bind_error
    exact ⟨m, hrefused.2, hP⟩

end Leaving

section Calls
variable (hs : t.storage.ActsAsMap R) (hw : R w.state m) (id : String)
include hs hw

/-- **Adding leaves every file with the tags that it had**, whatever is added. -/
theorem tag_widens (tags : Value) : Leaving R m.Within ((t.tag id tags false).runFrom w) := by
  refine leaving_ofExcept_bind hw m.within_refl fun identity _ => ?_
  refine leaving_ofExcept_bind hw m.within_refl fun given _ => ?_
  dsimp only
  rw [if_neg Bool.false_ne_true, map_eq_pure_bind, bind_assoc]
  refine (Store.get_held hs hw identity).bind_run fun w₁ hw₁ => ?_
  rw [pure_bind]
  refine leaving_set hs hw₁ m.within_refl (fun names hnames => ?_) fun m' => ?_
  · have htexts := congrArg (List.filterMap Value.text?) hnames
    rw [List.filterMap_append, Record.texts_ofNames, Record.texts_ofNames] at htexts
    rw [← htexts]
    exact Contents.within_update fun n hn => List.mem_eraseDups.2 (List.mem_append_left _ hn)
  · refine kept_bind (kept_ofExcept _) fun _ _ => ?_
    exact kept_bind (kept_ofExcept _) fun _ _ => noted_kept hs m' _ identity

/-- **Taking away leaves every file with no other tags than it had**, whatever is taken away. -/
theorem untag_narrows (tags : Option Value) :
    Leaving R (Contents.Within · m) ((t.untag id tags).runFrom w) := by
  refine leaving_ofExcept_bind hw m.within_refl fun identity _ => ?_
  cases tags with
  | none =>
    refine (Store.clear_held hs hw identity).bind_run fun w₁ hw₁ => ?_
    exact ⟨_, (noted_kept hs _ _ identity w₁ hw₁).1, Contents.update_within (List.nil_subset _)⟩
  | some v =>
    refine leaving_ofExcept_bind hw m.within_refl fun removed _ => ?_
    refine (Store.get_held hs hw identity).bind_run fun w₁ hw₁ => ?_
    refine leaving_set (P := (Contents.Within · m)) hs hw₁ m.within_refl (fun names hnames => ?_)
      fun m' => ?_
    · rw [Record.filter_ofNames] at hnames
      rw [← Record.ofNames_injective hnames]
      exact Contents.update_within fun n hn => (List.mem_filter.1 (List.mem_eraseDups.1 hn)).1
    · refine kept_bind (kept_ofExcept _) fun _ _ => ?_
      exact kept_bind (kept_ofExcept _) fun _ _ => noted_kept hs m' _ identity

end Calls

/-- **Queries are monotone and local, and what they find follows the tags.**  Every query is a
positive condition.  So over a storage that acts as a map, with any contents, and without a sweep
before listing, no file is lost from what a query finds when tags are added to one, and none is
gained when tags are taken from one, whichever the file and the tags are and whether the call is
refused or not. -/
theorem finds_follow_tags {query : String} {e : Query.Expr} (hq : Query.parse query = .ok e) :
    e.Positive ∧
      ∀ {σ : Type} {R : σ → Contents → Prop} {t : Tagger σ} {m : Contents} {w : World σ},
        t.storage.ActsAsMap R → t.sweepOnList = false → R w.state m →
        (∀ id tags, FindsWithin t query w ((t.tag id tags false).runFrom w).2) ∧
          ∀ id tags, FindsWithin t query ((t.untag id tags).runFrom w).2 w := by
  refine ⟨e.positive, fun hs hoff hw => ⟨fun id tags => ?_, fun id tags => ?_⟩⟩
  · obtain ⟨m', hw', hwithin⟩ := tag_widens hs hw id tags
    exact findsWithin_of_within hs hoff hw hw' hwithin hq
  · obtain ⟨m', hw', hwithin⟩ := untag_narrows hs hw id tags
    exact findsWithin_of_within hs hoff hw' hw hwithin hq

/-- A file that has a tag twice and meets the query, and one that lacks a tag for it. -/
theorem finds_follow_tags_of_group :
    let t : Tagger Table := ⟨memory, ⟨"/work", { own := "/home/user" }⟩, false, fun _ => .ok true⟩
    let m : Contents :=
      update (update (fun _ => none) "file:///a" (some ["x", "z", "x"])) "file:///b" (some ["y"])
    let w : World Table :=
      ⟨[("file:///a", ofNames ["x", "z", "x"]), ("file:///b", ofNames ["y"])], Log.start 0⟩
    let e : Query.Expr := .join .both (.tag "x") (.join .either (.tag "y") (.tag "z"))
    Query.parse "x & (y | z)" = .ok e ∧ t.sweepOnList = false ∧ Holds w.state m ∧ e.Positive ∧
      FindsWithin t "x & (y | z)" w ((t.tag "/b" (.list [.text "x"]) false).runFrom w).2 ∧
      FindsWithin t "x & (y | z)" ((t.untag "/a" (some (.list [.text "z"]))).runFrom w).2 w := by
  intro t m w e
  have hq : Query.parse "x & (y | z)" = .ok e := by cbv
  have hw : Holds w.state m := (holds_nil.put "file:///a" ["x", "z", "x"]).put "file:///b" ["y"]
  obtain ⟨hpositive, hfinds⟩ := finds_follow_tags hq
  obtain ⟨htag, huntag⟩ := hfinds (t := t) memory_actsAsMap rfl hw
  exact ⟨hq, rfl, hw, hpositive, htag _ _, huntag _ _⟩

end Tagger

end FileTags
