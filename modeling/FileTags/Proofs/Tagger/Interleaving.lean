import FileTags.Proofs.Tagger.Backends
/-! # Clients of different files

Clients that work on different files do not notice one another.  What tagging, untagging or deleting
a file that is named by a URI comes to depends on nothing but the tags of that file, and changes
nothing else (`Change.actsAt`).  So of a run of such calls, those on one file have the results that
they would have without the others (`Follows.apart`).

Two runs that have the same calls on each file, in the same order, may well leave the keys of the
storage in different orders.  But each call has the same result in both, and whatever is listed,
browsed or searched afterwards is the same, since both leave the same index (`interleavings_alike`).
-/
namespace FileTags

open Record (ofNames)

namespace Index

open Function (update)
open Tagger (readBack)

variable {α β : Type} {id : String}

/-- A change of indices concerns one identity: what the identity has afterwards depends only on what
it had before, and all others keep what they have. -/
structure StepsAt (id : String) (f : Index → Index) : Prop where
  there : ∀ {M N : Index}, M id = N id → f M id = f N id
  elsewhere : ∀ (M : Index) {other : String}, other ≠ id → f M other = M other

/-- **What comes of a request concerns one identity**: the result too depends only on what the
identity has. -/
structure ActsAt (id : String) (out : Index → Outcome α) : Prop where
  result : ∀ {M N : Index}, M id = N id → (out M).1 = (out N).1
  steps : StepsAt id fun M => (out M).2

theorem stepsAt_self : StepsAt id fun M => M := ⟨fun h => h, fun _ _ _ => rfl⟩

theorem names_congr {M N : Index} (h : M id = N id) : M.names id = N.names id := by
  rw [names, names, h]

theorem stepsAt_clear : StepsAt id fun M => M.step (.clear id) where
  there _ := by rw [step, step, Function.update_self, Function.update_self]
  elsewhere M other hne := by rw [step, Function.update_of_ne hne]

theorem stepsAt_set {entries : Index → List Value}
    (he : ∀ {M N : Index}, M id = N id → entries M = entries N) :
    StepsAt id fun M => M.step (.set id (entries M)) where
  there {M N} h := by
    rw [step, step, he h]
    split
    · rw [Function.update_self, Function.update_self]
    · exact h
  elsewhere M other hne := by
    rw [step]
    split
    · rw [Function.update_of_ne hne]
    · rfl

/-- Reading back the file that was changed concerns that file. -/
theorem actsAt_readBack {f : Index → Index} (hf : StepsAt id f) :
    ActsAt id fun M => (readBack id ((f M).names id), f M) where
  result h := by rw [names_congr (hf.there h)]
  steps := hf

/-- A refusal concerns an identity if what it leaves, whether it comes and what else is done do. -/
theorem ActsAt.unlessRefused {f : Index → Index} {r : Index → Except Failure α}
    {next : α → Index → Outcome β} (hf : StepsAt id f)
    (hr : ∀ {M N : Index}, M id = N id → r M = r N) (hn : ∀ a, ActsAt id (next a)) :
    ActsAt id fun M => (f M).unlessRefused (r M) fun a => next a M where
  result {M N} h := by
    rw [hr h]
    cases r N with
    | error e => rfl
    | ok a => exact (hn a).result h
  steps :=
    { there := fun {M N} h => by
        rw [hr h]
        cases r N with
        | error e => exact hf.there h
        | ok a => exact (hn a).steps.there h
      elsewhere := fun M {other} hne => by
        cases r M with
        | error e => exact hf.elsewhere M hne
        | ok a => exact (hn a).steps.elsewhere M hne }

/-- A URI is the identity that it is normalized to, unless it is refused. -/
theorem ActsAt.normalized {S : Surroundings} {next : String → Index → Outcome α}
    (hu : Uri.isUri id = true) (hn : ActsAt id (next id)) :
    ActsAt id fun M => M.unlessRefused (Identity.normalize S id) fun identity => next identity M := by
  rw [Identity.normalize_uri hu]
  cases Identity.check id with
  | error e => exact ⟨fun _ => rfl, stepsAt_self⟩
  | ok u => exact hn

theorem ActsAt.replying {out : Index → Outcome α} (h : ActsAt id out) (g : α → β) :
    ActsAt id fun M => Index.replying g (out M) where
  result hM := congrArg (Except.map g) (h.result hM)
  steps := h.steps

end Index

namespace Tagger

open FileTags.Action FileTags.Storage
open Index (ActsAt StepsAt)

variable {σ ρ : Type}

/-! ## Changes of one file -/

/-- The file that a change is about; moving a file is about two. -/
def Change.file? : Change → Option String
  | .tag id _ _ | .untag id _ | .deleted id => some id
  | .renamed _ _ => none

/-- A change of a file that is named by a URI. -/
def Change.OnUri (c : Change) : Prop := ∃ id, c.file? = some id ∧ Uri.isUri id = true

section ActsAt
variable {S : Surroundings} {id : String}

theorem tag_actsAt (hu : Uri.isUri id = true) (tags : Value) (replace : Bool) :
    ActsAt id fun M => tagOutcome S M id tags replace := by
  refine ActsAt.normalized hu (ActsAt.unlessRefused Index.stepsAt_self (fun _ => rfl) fun given => ?_)
  have hentries : ∀ {M N : Index}, M id = N id →
      (if replace then given else ofNames (M.names id) ++ given) =
        if replace then given else ofNames (N.names id) ++ given := by
    intro M N h
    rw [Index.names_congr h]
  refine ActsAt.unlessRefused Index.stepsAt_self (fun h => ?_) fun _ => ?_
  · exact congrArg Tag.validateAll (hentries h)
  · exact Index.actsAt_readBack (Index.stepsAt_set hentries)

theorem untag_actsAt (hu : Uri.isUri id = true) (tags : Option Value) :
    ActsAt id fun M => untagOutcome S M id tags := by
  refine ActsAt.normalized hu ?_
  cases tags with
  | none => exact Index.actsAt_readBack Index.stepsAt_clear
  | some v =>
    refine ActsAt.unlessRefused Index.stepsAt_self (fun _ => rfl) fun removed => ?_
    -- The tags that are left are written before the last refusals can come.
    have hset : StepsAt id fun M => M.step (.set id (M.remaining id removed)) :=
      Index.stepsAt_set fun h => by rw [Index.remaining, Index.remaining, Index.names_congr h]
    refine ActsAt.unlessRefused hset (fun _ => rfl) fun sorted => ?_
    exact ActsAt.unlessRefused hset (fun _ => rfl) fun text => Index.actsAt_readBack hset

theorem deleted_actsAt (hu : Uri.isUri id = true) : ActsAt id fun M => deletedOutcome S M id :=
  ActsAt.normalized hu ⟨fun _ => rfl, Index.stepsAt_clear⟩

/-- **A change of a file that is named by a URI concerns that file alone.** -/
theorem Change.actsAt {c : Change} (hfile : c.file? = some id) (hu : Uri.isUri id = true) :
    ActsAt id (c.outcome S) := by
  cases c with
  | tag id' tags replace =>
    obtain rfl : id' = id := Option.some.inj hfile
    exact (tag_actsAt hu tags replace).replying _
  | untag id' tags =>
    obtain rfl : id' = id := Option.some.inj hfile
    exact (untag_actsAt hu tags).replying _
  | renamed old new => cases hfile
  | deleted id' =>
    obtain rfl : id' = id := Option.some.inj hfile
    exact (deleted_actsAt hu).replying _

end ActsAt

/-! ## Runs of changes -/

/-- The changes of one file among some changes. -/
def changesOf (id : String) (cs : List Change) : List Change := cs.filter (·.file? = some id)

/-- The results of the changes of one file among the results of some changes. -/
def resultsOf (id : String) (cs : List Change) (rs : List ρ) : List ρ :=
  ((cs.zip rs).filter (·.1.file? = some id)).map Prod.snd

section OneFile
variable {id : String} {c : Change} (cs : List Change) (r : ρ) (rs : List ρ)

theorem changesOf_cons_of_mine (h : c.file? = some id) :
    changesOf id (c :: cs) = c :: changesOf id cs :=
  List.filter_cons_of_pos (decide_eq_true h)

theorem changesOf_cons_of_other (h : ¬ c.file? = some id) :
    changesOf id (c :: cs) = changesOf id cs :=
  List.filter_cons_of_neg fun hd => h (of_decide_eq_true hd)

theorem resultsOf_cons_of_mine (h : c.file? = some id) :
    resultsOf id (c :: cs) (r :: rs) = r :: resultsOf id cs rs := by
  have hpos : decide ((c, r).1.file? = some id) = true := decide_eq_true h
  rw [resultsOf, List.zip_cons_cons, List.filter_cons, if_pos hpos]
  rfl

theorem resultsOf_cons_of_other (h : ¬ c.file? = some id) :
    resultsOf id (c :: cs) (r :: rs) = resultsOf id cs rs := by
  have hneg : ¬ decide ((c, r).1.file? = some id) = true := fun hd => h (of_decide_eq_true hd)
  rw [resultsOf, List.zip_cons_cons, List.filter_cons, if_neg hneg]
  rfl

end OneFile

section Runs
variable {S : Surroundings}

/-- Changes have one result each. -/
theorem Follows.unique {M : Index} {cs : List Change} {rs rs' : List (Except Failure Reply)}
    (h : Follows S M (cs.map .change) rs) (h' : Follows S M (cs.map .change) rs') : rs = rs' := by
  induction cs generalizing M rs rs' with
  | nil =>
    cases h
    cases h'
    rfl
  | cons c cs ih =>
    cases h with
    | cons hr hrest =>
      cases h' with
      | cons hr' hrest' => rw [Eq.trans hr (Eq.symm hr'), ih hrest hrest']

/-- **The changes of one file come to what they come to without the others**, and leave the file as
they would. -/
theorem Follows.apart {id : String} {cs : List Change} (hcs : ∀ c ∈ cs, c.OnUri) {M N : Index}
    (hM : M id = N id) {rs : List (Except Failure Reply)} (h : Follows S M (cs.map .change) rs) :
    Follows S N ((changesOf id cs).map .change) (resultsOf id cs rs) ∧
      nextAll S M (cs.map .change) id = nextAll S N ((changesOf id cs).map .change) id := by
  -- Along the run the two indices agree on the file, whatever they hold elsewhere.
  induction cs generalizing M N rs with
  | nil =>
    cases h
    exact ⟨.nil N, hM⟩
  | cons c cs ih =>
    obtain ⟨⟨own, hfile, hu⟩, hcs⟩ := List.forall_mem_cons.1 hcs
    cases h with
    | @cons _ _ _ r rs hr hrest =>
      have hacts : ActsAt own (c.outcome S) := Change.actsAt hfile hu
      by_cases hmine : c.file? = some id
      · obtain rfl : own = id := Option.some.inj (hfile.symm.trans hmine)
        obtain ⟨hfollows, hend⟩ := ih hcs (hacts.steps.there hM) hrest
        rw [changesOf_cons_of_mine cs hmine, resultsOf_cons_of_mine cs r rs hmine]
        refine ⟨.cons ?_ hfollows, hend⟩
        exact hr.trans (congrArg _ (hacts.result hM))
      · have hother : id ≠ own := fun he => hmine (by rw [he, hfile])
        have hkept : (c.outcome S M).2 id = N id := (hacts.steps.elsewhere M hother).trans hM
        rw [changesOf_cons_of_other cs hmine, resultsOf_cons_of_other cs r rs hmine]
        exact ih hcs hkept hrest

end Runs

/-! ## Two runs -/

/-- **Changes of different files can be made in any order.**  From records as the store writes them,
two runs of changes of files that are named by URIs, with the same changes of each file in the same
order, give each change the same result, and afterwards all that can be asked has the same answer. -/
theorem interleavings_alike {R : σ → Contents → Prop} {t : Tagger σ} (hs : t.storage.ActsAsMap R)
    (hoff : t.sweepOnList = false) {m : Contents} (hm : m.WellFormed) {w w' : World σ}
    (hw : R w.state m) (hw' : R w'.state m) {cs cs' : List Change} (hcs : ∀ c ∈ cs, c.OnUri)
    (hcs' : ∀ c ∈ cs', c.OnUri) (hsame : ∀ id, changesOf id cs = changesOf id cs') :
    let run := session t w (cs.map .change)
    let run' := session t w' (cs'.map .change)
    (∀ id, resultsOf id cs run.1 = resultsOf id cs' run'.1) ∧
    ∀ req : Request, req.Reads →
      ((req.act t).runFrom run.2).1 = ((req.act t).runFrom run'.2).1 := by
  intro run run'
  obtain ⟨M, rfl⟩ := Index.exists_of_wellFormed hm
  obtain ⟨hfollows, hheld⟩ := follows_session hs hoff hw (cs.map .change)
  obtain ⟨hfollows', hheld'⟩ := follows_session hs hoff hw' (cs'.map .change)
  have hapart := fun id => hfollows.apart hcs (rfl : M id = M id)
  have hapart' := fun id => hfollows'.apart hcs' (rfl : M id = M id)
  have hindex : nextAll t.surroundings M (cs.map .change) =
      nextAll t.surroundings M (cs'.map .change) := by
    funext id
    rw [(hapart id).2, hsame id, (hapart' id).2]
  refine ⟨fun id => ?_, fun req hreads => ?_⟩
  · have halone := (hapart id).1
    rw [hsame id] at halone
    exact halone.unique (hapart' id).1
  · rw [← hindex] at hheld'
    obtain ⟨r, ⟨hr, -⟩, hanswer⟩ := Request.obeys hs hheld hoff req
    obtain ⟨r', ⟨hr', -⟩, hanswer'⟩ := Request.obeys hs hheld' hoff req
    rw [hr, hr']
    exact hanswer.unique hanswer' hreads

/-- Two clients in memory, one of which tags a new file, fails to and drops a tag again, while the
other adds to the tags of a file and deletes it. -/
theorem interleavings_alike_in_memory :
    let m : Contents := Function.update (fun _ => none) "file:///b" (some ["z"])
    let t : Tagger Table := ⟨memory, ⟨"/work", { own := "/home/user" }⟩, false, fun _ => .ok true⟩
    let w : World Table := ⟨[("file:///b", ofNames ["z"])], Log.start 0⟩
    let first : List Change := [
      .tag "urn:a" (.list [.text "x", .text "y"]) true,
      .tag "urn:a" (.list [.text "y", .int 3]) false,
      .untag "urn:a" (some (.list [.text "x"]))]
    let second : List Change := [
      .tag "file:///b" (.list [.text "x"]) false,
      .deleted "file:///b",
      .tag "file:///b" (.list [.text "y"]) true]
    let cs := first ++ second
    let cs' := second ++ first
    t.storage.ActsAsMap Holds ∧ m.WellFormed ∧ Holds w.state m ∧ (∀ c ∈ cs, c.OnUri) ∧
    (∀ c ∈ cs', c.OnUri) ∧ (∀ id, changesOf id cs = changesOf id cs') ∧
    let run := session t w (cs.map .change)
    let run' := session t w (cs'.map .change)
    (∀ id, resultsOf id cs run.1 = resultsOf id cs' run'.1) ∧
    ∀ req : Request, req.Reads →
      ((req.act t).runFrom run.2).1 = ((req.act t).runFrom run'.2).1 := by
  intro m t w first second cs cs'
  have hw : Holds w.state m := holds_nil.put "file:///b" ["z"]
  have hm : m.WellFormed := by
    intro id names h
    by_cases hid : id = "file:///b"
    · rw [hid, show m "file:///b" = some ["z"] from Function.update_self ..] at h
      cases h
      decide
    · rw [show m id = none from Function.update_of_ne hid ..] at h
      cases h
  have hfirst : ∀ c ∈ first, c.file? = some "urn:a" := by decide
  have hsecond : ∀ c ∈ second, c.file? = some "file:///b" := by decide
  have hcs : ∀ c ∈ cs, c.OnUri := by
    intro c hc
    rcases List.mem_append.1 hc with hc | hc
    · exact ⟨_, hfirst c hc, by decide⟩
    · exact ⟨_, hsecond c hc, by decide⟩
  have hcs' : ∀ c ∈ cs', c.OnUri := fun c hc => hcs c (List.perm_append_comm.mem_iff.1 hc)
  have hsame : ∀ id, changesOf id cs = changesOf id cs' := by
    intro id
    rw [changesOf, changesOf, List.filter_append, List.filter_append]
    by_cases ha : id = "urn:a"
    · have hnone : second.filter (·.file? = some id) = [] := by
        rw [ha]
        decide
      rw [hnone, List.append_nil, List.nil_append]
    · have hnone : first.filter (·.file? = some id) = [] := by
        refine List.filter_eq_nil_iff.2 fun c hc hd => ha ?_
        exact Option.some.inj ((of_decide_eq_true hd).symm.trans (hfirst c hc))
      rw [hnone, List.append_nil, List.nil_append]
  exact ⟨memory_actsAsMap, hm, hw, hcs, hcs', hsame,
    interleavings_alike memory_actsAsMap rfl hm hw hw hcs hcs' hsame⟩

end Tagger

end FileTags
