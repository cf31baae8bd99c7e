import FileTags.Proofs.Store.Sweep
import FileTags.Proofs.Tagger.Catalogue
import FileTags.Proofs.Tagger.Refusals
/-! # The tagger as an index

What a user may think the tagger is: an index of normalized identities, on which each request has an
outcome (`Outcome`), a result together with the index after it.  A request is refused step by step,
for its identity, for its collection, for its tags, and until then the index is as it was; what is
listed and searched is the catalogue of the index.

Over any storage that acts as a map, and without a sweep before listing, the tagger is that index
(`Request.obeys`), request by request and for as many requests as there are (`follows_session`).  The
index leaves only one thing open, the order of what a sweep answers with (`Request.Answers.alike`).
-/
namespace FileTags

open FileTags.Action
open Record (ofNames)

namespace Storage

theorem Contents.view_tags (m : Contents) (id : String) : m.view.tags id = ofNames (m.tags id) := by
  rw [Contents.tags, ← Tag.dedupeBy_ofNames, ← getD_ofNames]
  rfl

/-- In the catalogue of some contents is every identity that has tags, with them. -/
theorem Contents.mem_catalogue {m : Contents} {files : List TaggedFile} (hf : m.view.Catalogue files)
    (f : TaggedFile) : f ∈ files ↔ f.tags = ofNames (m.tags f.id) ∧ m.tags f.id ≠ [] := by
  rw [hf.mem_iff, Contents.view_tags]
  constructor
  · rintro ⟨-, htags, hne⟩
    refine ⟨htags, fun hnil => hne ?_⟩
    rw [htags, hnil]
    rfl
  · rintro ⟨htags, hne⟩
    have htagged : f.tags ≠ [] := fun h => hne (List.map_eq_nil_iff.1 (htags.symm.trans h))
    exact ⟨isSome_of_tags_ne_nil hne, htags, htagged⟩

theorem Contents.mem_ids_catalogue {m : Contents} {files : List TaggedFile}
    (hf : m.view.Catalogue files) (id : String) :
    id ∈ files.map TaggedFile.id ↔ m.tags id ≠ [] := by
  rw [List.mem_map]
  constructor
  · rintro ⟨f, hfile, rfl⟩
    exact ((mem_catalogue hf f).1 hfile).2
  · intro hne
    exact ⟨⟨id, ofNames (m.tags id)⟩, (mem_catalogue hf _).2 ⟨rfl, hne⟩, rfl⟩

end Storage

namespace Index

open Function (update)
open FileTags.Storage

variable {α β : Type}

/-- What comes of a request: its result, and the index after it. -/
abbrev Outcome (α : Type) := Except Failure α × Index

/-- Goes on with an answer; a refusal is the end, with nothing changed. -/
def unlessRefused (M : Index) (r : Except Failure α) (next : α → Outcome β) : Outcome β :=
  match r with
  | .ok a => next a
  | .error f => (.error f, M)

/-- What comes of a request whose answer is put in another way. -/
def replying (g : α → β) (out : Outcome α) : Outcome β := (out.1.map g, out.2)

/-- The index without the identities that are gone. -/
def without (M : Index) (gone : String → Bool) : Index := fun id => if gone id then none else M id

/-- The tags of an identity that are left when some are taken from it. -/
def remaining (M : Index) (id : String) (removed : List Value) : Record :=
  (ofNames (M.names id)).filter fun tag => !removed.any (Value.same tag)

/-- The view of what a storage holds for an index. -/
def view (M : Index) : View := M.contents.view

theorem view_tags (M : Index) (id : String) : M.view.tags id = ofNames (M.names id) := by
  rw [view, Contents.view_tags, tags_contents]

/-- What a sweep leaves: of identities that have no tags it makes no difference whether they are
gone. -/
theorem contents_without {M : Index} {snapshot : List String} {gone : String → Bool}
    (h : ∀ id, id ∈ snapshot ↔ M.contents.tags id ≠ []) :
    (M.without gone).contents = M.contents.without (snapshot.filter gone) := by
  have hremoved : ∀ id, id ∈ snapshot.filter gone ↔ (M id).isSome = true ∧ gone id = true := by
    intro id
    rw [List.mem_filter, h, ne_eq, tags_contents_eq_nil]
    cases M id <;> simp
  funext id
  show ((M.without gone) id).map TagSet.names = if id ∈ snapshot.filter gone then none else M.contents id
  rw [without]
  by_cases hgone : gone id = true
  · rw [if_pos hgone]
    split
    · rfl
    · rename_i hkept
      have hnone : ¬ (M id).isSome = true := fun hsome => hkept ((hremoved id).2 ⟨hsome, hgone⟩)
      rw [contents, Option.not_isSome_iff_eq_none.1 hnone]
  · rw [if_neg hgone, if_neg fun hmem => hgone ((hremoved id).1 hmem).2, contents]

end Index

namespace Tagger

open FileTags.Storage FileTags.Store
open Index (Outcome unlessRefused replying)

variable {σ α β : Type}

/-! ## Requests and what comes of them -/

/-- What can be asked of the tagger.  A sweep comes with what is to be said about each identity. -/
inductive Request where
  | change (c : Change)
  | get (id : String)
  | files
  | tags
  | find (query : String)
  | sweep (answer : String → Except Failure Bool)

/-- What the tagger can answer with. -/
inductive Reply where
  | changed (a : Answer)
  | file (f : TaggedFile)
  | files (fs : List TaggedFile)
  | groups (gs : List TagGroup)
  | swept (ids : List String)

/-- The operation of the tagger that a request asks for. -/
def Request.act (t : Tagger σ) : Request → Action (World σ) Reply
  | .change c => return .changed (← c.act t)
  | .get id => return .file (← t.get id)
  | .files => return .files (← t.files)
  | .tags => return .groups (← t.tags)
  | .find query => return .files (← t.find query)
  | .sweep answer => return .swept (← Tagger.sweep { t with isAlive := answer })

section Outcomes
variable (S : Surroundings) (M : Index)

/-- What comes of setting the tags of a file, or adding to them. -/
def tagOutcome (id : String) (tags : Value) (replace : Bool) : Outcome TaggedFile :=
  M.unlessRefused (Identity.normalize S id) fun identity =>
    M.unlessRefused (Tag.collection tags) fun given =>
      let entries := if replace then given else ofNames (M.names identity) ++ given
      let N := M.step (.set identity entries)
      M.unlessRefused (Tag.validateAll entries) fun _ => (readBack identity (N.names identity), N)

/-- What comes of taking tags from a file.  Only at the end does it show whether they can be put in
order and told of. -/
def untagOutcome (id : String) (tags : Option Value) : Outcome TaggedFile :=
  M.unlessRefused (Identity.normalize S id) fun identity =>
    match tags with
    | none =>
      let N := M.step (.clear identity)
      (readBack identity (N.names identity), N)
    | some v =>
      M.unlessRefused (Tag.collection v >>= Tag.dedupe) fun removed =>
        let N := M.step (.set identity (M.remaining identity removed))
        N.unlessRefused ((Value.sort? removed).elim (.error .wrongKind) .ok) fun sorted =>
          N.unlessRefused (joined sorted) fun _ => (readBack identity (N.names identity), N)

/-- What comes of carrying the tags of a file over to another. -/
def renamedOutcome (old new : String) : Outcome Bool :=
  M.unlessRefused (Identity.normalize S old) fun old =>
    M.unlessRefused (Identity.normalize S new) fun new =>
      (.ok (decide (old ≠ new) && (M old).isSome), M.step (.rename old new))

/-- What comes of dropping the tags of a file. -/
def deletedOutcome (id : String) : Outcome Unit :=
  M.unlessRefused (Identity.normalize S id) fun identity => (.ok (), M.step (.clear identity))

/-- What comes of a change. -/
def Change.outcome : Change → Outcome Answer
  | .tag id tags replace => replying .file (tagOutcome S M id tags replace)
  | .untag id tags => replying .file (untagOutcome S M id tags)
  | .renamed old new => replying .moved (renamedOutcome S M old new)
  | .deleted id => replying (fun _ => .done) (deletedOutcome S M id)

/-- What comes of asking for the tags of a file. -/
def getOutcome (id : String) : Outcome TaggedFile :=
  M.unlessRefused (Identity.normalize S id) fun identity =>
    (.ok ⟨identity, ofNames (M.names identity)⟩, M)

/-- The index after a request. -/
def Request.next : Request → Index
  | .change c => (c.outcome S M).2
  | .sweep answer => M.without fun id => saysGone (answer id)
  | _ => M

/-- **The results that a request can have.**  Changes and what is asked of a file have their outcome;
listing, browsing and searching are told by the catalogue; a sweep answers with the tagged
identities that are gone, each once. -/
def Request.Answers : Request → Except Failure Reply → Prop
  | .change c, r => r = (c.outcome S M).1.map .changed
  | .get id, r => r = (getOutcome S M id).1.map .file
  | .files, r => ∃ files, M.view.Catalogue files ∧ r = .ok (.files files)
  | .tags, r => ∃ files, M.view.Catalogue files ∧
      r = (sortGroups? (groupsOf files)).elim (.error .wrongKind) fun gs => .ok (.groups gs)
  | .find query, r => ∃ files, M.view.Catalogue files ∧
      r = match Query.parse query with
        | .ok e => .ok (.files (files.filter (meets e)))
        | .error m => .error (.malformedQuery m)
  | .sweep answer, r => ∃ ids, r = .ok (.swept ids) ∧ ids.Nodup ∧
      ∀ id, id ∈ ids ↔ (M id).isSome = true ∧ saysGone (answer id) = true

end Outcomes

/-! ## What the tagger does -/

section EndsIn
variable {R : σ → Contents → Prop} {M : Index} {w : World σ}

/-- From a world an action comes to an outcome: it ends with its result, and the storage holds its
index. -/
def EndsIn (R : σ → Contents → Prop) (act : Action (World σ) α) (w : World σ)
    (out : Outcome α) : Prop :=
  act.Ends w out.1 fun w' => R w'.state out.2.contents

theorem endsIn_unlessRefused {r : Except Failure α} {next : α → Action (World σ) β}
    {out : α → Outcome β} (hw : R w.state M.contents)
    (hn : ∀ a, r = .ok a → EndsIn R (next a) w (out a)) :
    EndsIn R (Action.ofExcept r >>= next) w (M.unlessRefused r out) := by
  cases r with
  | error f =>
    have hrefused : (Action.ofExcept (.error f) : Action (World σ) α).Ends w (.error f)
        fun w' => R w'.state M.contents := ends_ofExcept _ hw
    exact hrefused.bind_error
  | ok a =>
    have hsame : (Action.ofExcept (.ok a)).Ends w (.ok a) (· = w) := ⟨rfl, rfl⟩
    refine hsame.bind ?_
    rintro _ rfl
    exact hn a rfl

theorem EndsIn.replying {act : Action (World σ) α} {out : Outcome α} (h : EndsIn R act w out)
    (g : α → β) : EndsIn R (act >>= fun a => pure (g a)) w (replying g out) := by
  obtain ⟨f | a, N⟩ := out
  · exact Ends.bind_error h
  · exact Ends.bind h fun w' hw' => ends_pure hw'

variable {t : Tagger σ} (hs : t.storage.ActsAsMap R) (hw : R w.state M.contents)
include hs hw

theorem get_endsIn (id : String) : EndsIn R (t.get id) w (getOutcome t.surroundings M id) := by
  refine endsIn_unlessRefused hw fun identity _ => ?_
  exact (Index.get_ends hs hw identity).bind fun w' hw' => ends_pure hw'

/-- An identity is read back with its tags, unless it is too long. -/
theorem readBack_endsIn {id identity : String}
    (hid : Identity.normalize t.surroundings id = .ok identity) :
    EndsIn R (t.get identity) w (readBack identity (M.names identity), M) := by
  have hget := get_endsIn hs hw identity
  have hout : getOutcome t.surroundings M identity =
      (readBack identity (M.names identity), M) := by
    rw [getOutcome, Identity.normalize_normalized hid, readBack,
      eraseDups_of_nodup (M.nodup_names identity)]
    by_cases hlong : Identity.maxLength < identity.length
    · rw [if_pos hlong, if_pos hlong, unlessRefused]
    · rw [if_neg hlong, if_neg hlong, unlessRefused]
  rwa [hout] at hget

/-- After a change it is told of, and the file is read back. -/
theorem noted_endsIn {id identity : String}
    (hid : Identity.normalize t.surroundings id = .ok identity) (text : String) :
    EndsIn R (do
      note .info text
      t.get identity) w (readBack identity (M.names identity), M) := by
  have hnote : (note .info text).Ends w (.ok ()) fun w' => R w'.state M.contents := ⟨rfl, hw⟩
  exact hnote.bind fun w₁ hw₁ => readBack_endsIn hs hw₁ hid

/-- Tags that are accepted are put in place of those that are there, and the file is read back. -/
theorem put_endsIn {id identity : String}
    (hid : Identity.normalize t.surroundings id = .ok identity) (entries : List Value) :
    EndsIn R (do
      Store.set t.storage identity entries
      let text ← Action.ofExcept (joined (← Action.ofExcept (Tag.dedupe entries)))
      note .info ("Tagged " ++ identity ++ ": " ++ text)
      t.get identity) w
      (M.unlessRefused (Tag.validateAll entries) fun _ =>
        (readBack identity ((M.step (.set identity entries)).names identity),
          M.step (.set identity entries))) := by
  have hset := Index.set_ends hs hw identity entries
  by_cases hv : ∀ v ∈ entries, Tag.isValid v = true
  · rw [if_pos (List.all_eq_true.2 hv)] at hset
    generalize M.step (.set identity entries) = N at hset
    obtain ⟨names, rfl, hn⟩ := Tag.exists_names hv
    rw [Tag.validateAll_ofNames hn, unlessRefused]
    exact put_of_set hset fun text w₁ hw₁ => noted_endsIn hs hw₁ hid text
  · have hall : ¬ entries.all Tag.isValid = true := fun h => hv (List.all_eq_true.1 h)
    rw [if_neg hall, Index.step, if_neg hall] at hset
    rw [Tag.validateAll_invalid hv, unlessRefused]
    exact hset.bind_error

theorem tag_endsIn (id : String) (tags : Value) (replace : Bool) :
    EndsIn R (t.tag id tags replace) w (tagOutcome t.surroundings M id tags replace) := by
  refine endsIn_unlessRefused hw fun identity hid => ?_
  refine endsIn_unlessRefused hw fun given _ => ?_
  cases replace with
  | true => exact put_endsIn hs hw hid given
  | false =>
    dsimp only
    rw [if_neg Bool.false_ne_true, if_neg Bool.false_ne_true, map_eq_pure_bind, bind_assoc]
    refine (Index.get_ends hs hw identity).bind fun w₁ hw₁ => ?_
    rw [pure_bind]
    exact put_endsIn hs hw₁ hid _

theorem untag_endsIn (id : String) (tags : Option Value) :
    EndsIn R (t.untag id tags) w (untagOutcome t.surroundings M id tags) := by
  refine endsIn_unlessRefused hw fun identity hid => ?_
  cases tags with
  | none => exact (Index.clear_ends hs hw identity).bind fun w₁ hw₁ => noted_endsIn hs hw₁ hid _
  | some v =>
    refine endsIn_unlessRefused hw fun removed _ => ?_
    refine (Index.get_ends hs hw identity).bind fun w₁ hw₁ => ?_
    -- What is left are tags that were accepted before.
    have hvalid : (M.remaining identity removed).all Tag.isValid = true := by
      refine List.all_eq_true.2 fun tag htag => ?_
      obtain ⟨n, hn, rfl⟩ := List.mem_map.1 (List.mem_filter.1 htag).1
      exact Index.isName_of_mem_names hn
    have hset := Index.set_ends hs hw₁ identity (M.remaining identity removed)
    rw [if_pos hvalid] at hset
    refine hset.bind fun w₂ hw₂ => ?_
    refine endsIn_unlessRefused hw₂ fun sorted _ => ?_
    exact endsIn_unlessRefused hw₂ fun text _ => noted_endsIn hs hw₂ hid _

theorem change_endsIn (c : Change) : EndsIn R (c.act t) w (c.outcome t.surroundings M) := by
  cases c with
  | tag id tags replace => exact (tag_endsIn hs hw id tags replace).replying _
  | untag id tags => exact (untag_endsIn hs hw id tags).replying _
  | renamed old new =>
    refine EndsIn.replying (endsIn_unlessRefused hw fun old' _ => ?_) _
    exact endsIn_unlessRefused hw fun new' _ => Index.rename_ends hs hw old' new'
  | deleted id =>
    refine EndsIn.replying (endsIn_unlessRefused hw fun identity _ => ?_) _
    exact Index.clear_ends hs hw identity

/-- **Every request has a result that the index allows, and leaves the index after it.** -/
theorem Request.obeys (hoff : t.sweepOnList = false) (req : Request) :
    ∃ r, (req.act t).Ends w r (fun w' => R w'.state (req.next t.surroundings M).contents) ∧
      req.Answers t.surroundings M r := by
  have hshows : t.storage.Shows (fun u => R u M.contents) M.view := hs.shows M.contents
  obtain ⟨files, hf⟩ := exists_catalogue hshows hw
  cases req with
  | change c =>
    have hchange := (change_endsIn hs hw c).replying Reply.changed
    exact ⟨_, hchange, rfl⟩
  | get id =>
    have hget := (get_endsIn hs hw id).replying Reply.file
    -- Asking changes nothing, whether it is refused or not.
    have hsame : (getOutcome t.surroundings M id).2 = M := by
      rw [getOutcome]
      cases Identity.normalize t.surroundings id with
      | error f => rfl
      | ok identity => rfl
    rw [EndsIn, replying, hsame] at hget
    exact ⟨_, hget, rfl⟩
  | files =>
    exact ⟨_, (files_ends hshows hoff hf hw).bind fun w' hw' => ends_pure hw', files, hf, rfl⟩
  | tags =>
    have htags := tags_ends hshows hoff hf hw
    refine ⟨_, ?_, files, hf, rfl⟩
    cases hsort : sortGroups? (groupsOf files) with
    | none =>
      rw [hsort] at htags
      exact htags.bind_error
    | some gs =>
      rw [hsort] at htags
      exact htags.bind fun w' hw' => ends_pure hw'
  | find query =>
    refine ⟨_, ?_, files, hf, rfl⟩
    cases hq : Query.parse query with
    | ok e => exact (find_ends hshows hoff hf hw hq).bind fun w' hw' => ends_pure hw'
    | error m =>
      have hrefused : (t.find query).Ends w (.error (.malformedQuery m))
          fun w' => R w'.state M.contents := by
        rw [Tagger.find, hq]
        exact ⟨rfl, hw⟩
      exact hrefused.bind_error
  | sweep answer =>
    obtain ⟨snapshot, -, hnodup, hmem, hends⟩ := sweep_fixed hs answer hw
    have hsweep : (Tagger.sweep { t with isAlive := answer }).Ends w
        (.ok (snapshot.filter fun id => saysGone (answer id)))
        fun w' => R w'.state (M.without fun id => saysGone (answer id)).contents := by
      rw [Index.contents_without hmem]
      exact hends
    refine ⟨_, hsweep.bind fun w' hw' => ends_pure hw', _, rfl, hnodup.filter _, fun id => ?_⟩
    rw [List.mem_filter, hmem, ne_eq, Index.tags_contents_eq_nil]
    cases M id <;> simp

end EndsIn

/-! ## Sessions -/

/-- The results of requests one after another, and the world after them.  A request that fails does
not end the session. -/
def session (t : Tagger σ) (w : World σ) : List Request → List (Except Failure Reply) × World σ
  | [] => ([], w)
  | req :: reqs =>
    let out := (req.act t).runFrom w
    let rest := session t out.2 reqs
    (out.1 :: rest.1, rest.2)

/-- The index after requests. -/
def nextAll (S : Surroundings) (M : Index) (reqs : List Request) : Index :=
  reqs.foldl (fun M req => req.next S M) M

/-- **Results follow an index** if each is one that the index allows after the requests before it. -/
inductive Follows (S : Surroundings) : Index → List Request → List (Except Failure Reply) → Prop
  | nil (M : Index) : Follows S M [] []
  | cons {M : Index} {req : Request} {reqs : List Request} {r : Except Failure Reply}
    {rs : List (Except Failure Reply)} :
    req.Answers S M r → Follows S (req.next S M) reqs rs → Follows S M (req :: reqs) (r :: rs)

/-- **A session follows the index** that the storage holds, and leaves the index after it. -/
theorem follows_session {R : σ → Contents → Prop} {t : Tagger σ} (hs : t.storage.ActsAsMap R)
    (hoff : t.sweepOnList = false) {M : Index} {w : World σ} (hw : R w.state M.contents)
    (reqs : List Request) :
    Follows t.surroundings M reqs (session t w reqs).1 ∧
      R (session t w reqs).2.state (nextAll t.surroundings M reqs).contents := by
  induction reqs generalizing M w with
  | nil => exact ⟨.nil M, hw⟩
  | cons req reqs ih =>
    obtain ⟨r, ⟨hr, hw'⟩, hanswer⟩ := Request.obeys hs hw hoff req
    obtain ⟨hfollows, hheld⟩ := ih hw'
    refine ⟨.cons ?_ hfollows, hheld⟩
    rw [hr]
    exact hanswer

end Tagger

end FileTags
