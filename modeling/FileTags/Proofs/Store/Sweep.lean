import FileTags.Proofs.Store.Faults
import FileTags.Proofs.Store.Rename
/-! # Sweeps

A sweep asks a probe about each identity, and while it does so the probe may use the store itself:
take away the tags of identities that are still to be asked for, give tags to those that were swept,
move tags, add identities, sweep on its own.  The sweep is not disturbed by that, as it works on the
identities that had tags before its first question.

What happens between the questions is the course of a sweep (`Course`).  It is told by what the
storage holds: from one question to the next that changes by what the probe does in its run, and by
nothing else but that an identity that is gone loses its record.  `sweep_snapshot` says that every
sweep over a storage that never fails has such a course, through all identities of the snapshot in
order, and answers with those whose probe said that they are gone.

If the probe leaves the store alone and answers by the identity only, the course comes to a plain
map: what was not gone is as it was, and a second sweep finds nothing to remove.
-/
namespace FileTags.Store

open Function (update)
open FileTags.Action FileTags.Storage
open Record (ofNames)

variable {σ : Type} {s : Storage σ} {R : σ → Contents → Prop} {m m' : Contents} {w : World σ}

/-! ## Questions -/

/-- **A question of a sweep**: the identity, the world in which its probe is run, the answer, and the
world that the probe leaves. -/
structure Question (σ : Type) where
  id : String
  before : World σ
  answer : Except Failure Bool
  after : World σ

namespace Question

/-- What was asked and what was said. -/
def asked (q : Question σ) : String × Except Failure Bool := (q.id, q.answer)

/-- What the sweep makes of what its probe has left: an identity that is gone loses its record. -/
def leaves (q : Question σ) (m : Contents) : Contents :=
  if saysGone q.answer then update m q.id none else m

theorem leaves_of_gone {q : Question σ} (h : saysGone q.answer = true) (m : Contents) :
    q.leaves m = update m q.id none := if_pos h

theorem leaves_of_not_gone {q : Question σ} (h : saysGone q.answer = false) (m : Contents) :
    q.leaves m = m := if_neg (ne_true_of_eq_false h)

/-- An identity that is not gone is spared by the sweep itself. -/
theorem leaves_of_notMem {q : Question σ} {qs : List (Question σ)} (hq : q ∈ qs) {id : String}
    (hid : id ∉ gone (qs.map asked)) (m : Contents) : q.leaves m id = m id := by
  by_cases hgone : saysGone q.answer = true
  · have hmem : q.id ∈ gone (qs.map asked) :=
      List.mem_map.2 ⟨q.asked, List.mem_filter.2 ⟨List.mem_map_of_mem hq, hgone⟩, rfl⟩
    have hne : id ≠ q.id := by
      rintro rfl
      exact hid hmem
    rw [leaves_of_gone hgone, Function.update_of_ne hne]
  · rw [leaves_of_not_gone (Bool.eq_false_iff.2 hgone)]

end Question

/-- **The course of a sweep**, by what the storage holds.  Each question is a run of the probe.  The
first one starts with what was held before the sweep, every other with what the question before it
has come to, and the last one comes to what is held in the end. -/
inductive Course (R : σ → Contents → Prop) (probe : Probe σ) :
    Contents → List (Question σ) → Contents → Prop
  | done (m : Contents) : Course R probe m [] m
  | ask {m m₁ m' : Contents} {q : Question σ} {qs : List (Question σ)} :
    R q.before.state m → (probe q.id).runFrom q.before = (q.answer, q.after) →
    R q.after.state m₁ → Course R probe (q.leaves m₁) qs m' → Course R probe m (q :: qs) m'

/-! ## Whatever the probe does

A probe may be any program of a client, and every call of a client leaves a storage that holds
something, whatever the records were before. -/

/-- The storage holds some contents. -/
def HoldsAny (R : σ → Contents → Prop) (t : σ) : Prop := ∃ m, R t m

theorem kept_any {α : Type} {act : Action (World σ) α}
    (h : ∀ m w, R w.state m → ∃ r m', act.Ends w r fun w' => R w'.state m') :
    Kept (HoldsAny R) act := by
  rintro w ⟨m, hw⟩
  obtain ⟨r, m', -, hw'⟩ := h m w hw
  exact ⟨⟨m', hw'⟩, trivial⟩

section ActsAsMap
variable (hs : s.ActsAsMap R)
include hs

theorem set_kept_any (id : String) (entries : List Value) :
    Kept (HoldsAny R) (set s id entries) := by
  refine kept_any fun m w hw => ?_
  by_cases hv : ∀ v ∈ entries, Tag.isValid v = true
  · obtain ⟨names, rfl, hn⟩ := Tag.exists_names hv
    exact ⟨_, _, set_held hs hw id hn⟩
  · exact ⟨_, m, set_invalid hw hv⟩

theorem clear_kept_any (id : String) : Kept (HoldsAny R) (clear s id) := by
  exact kept_any fun m w hw => ⟨_, _, clear_held hs hw id⟩

theorem rename_kept_any (old new : String) : Kept (HoldsAny R) (rename s old new) := by
  refine kept_any fun m w hw => ?_
  have hcomes : ComesTo (fun t m f => R t m ∧ f.Never) s m .none old new w :=
    comesTo hs.serves (serving_none hw) fun _ => rfl
  obtain ⟨r, m', f', h, -⟩ := hcomes
  exact ⟨r, m', h.imp fun w' hw' => hw'.1⟩

theorem get_kept_any (id : String) : Kept (HoldsAny R) (get s id) := by
  exact kept_any fun m w hw => ⟨_, m, get_held hs hw id⟩

theorem items_kept_any : Kept (HoldsAny R) (items s) := by
  refine kept_any fun m w hw => ?_
  obtain ⟨keys, -, h⟩ := items_listed hs hw
  exact ⟨_, m, h⟩

/-- **Whatever a client calls, the storage holds something after it.** -/
theorem call_kept_any (c : Call) : Kept (HoldsAny R) (c.act s) := by
  cases c with
  | set id entries => exact kept_bind (set_kept_any hs id entries) fun _ _ => kept_pure _
  | clear id => exact kept_bind (clear_kept_any hs id) fun _ _ => kept_pure _
  | rename old new => exact kept_bind (rename_kept_any hs old new) fun _ _ => kept_pure _
  | get id => exact kept_bind (get_kept_any hs id) fun _ _ => kept_pure _
  | items => exact kept_bind (items_kept_any hs) fun _ _ => kept_pure _
  | identities =>
    have hids : Kept (HoldsAny R) (identities s) :=
      kept_bind (items_kept_any hs) fun _ _ => kept_pure _
    exact kept_bind hids fun _ _ => kept_pure _

end ActsAsMap

/-! ## The course of every sweep -/

section Course
variable {probe : Probe σ} {past : List (String × Except Failure Bool)} {ids : List String}

/-- A sweep of some identities comes through all of them: it has a course, it answers with those that
are gone, and its questions have been noted after those of the past. -/
def ComesThroughAll (R : σ → Contents → Prop) (probe : Probe σ) (m : Contents)
    (past : List (String × Except Failure Bool)) (ids : List String)
    (out : Except Failure (List String) × World (Watched σ)) : Prop :=
  ∃ qs m', Course R probe m qs m' ∧ qs.map Question.id = ids ∧
    out.1 = .ok (gone (qs.map Question.asked)) ∧ R out.2.state.inner m' ∧
    out.2.state.asked = (qs.map Question.asked).reverse ++ past

section Step
variable {q : Question σ} {m₁ : Contents} (hbefore : R q.before.state m)
  (hrun : (probe q.id).runFrom q.before = (q.answer, q.after)) (hafter : R q.after.state m₁)
include hbefore hrun hafter

/-- The first identity is left alone, and the rest is swept. -/
theorem ComesThroughAll.passed {out : Except Failure (List String) × World (Watched σ)}
    (hgone : saysGone q.answer = false)
    (h : ComesThroughAll R probe m₁ (q.asked :: past) ids out) :
    ComesThroughAll R probe m past (q.id :: ids) out := by
  obtain ⟨qs, m', hcourse, hids, hanswer, hheld, hasked⟩ := h
  rw [reverse_append_cons] at hasked
  rw [← q.leaves_of_not_gone hgone m₁] at hcourse
  refine ⟨q :: qs, m', .ask hbefore hrun hafter hcourse, ?_, ?_, hheld, hasked⟩
  · rw [List.map_cons, hids]
  · rw [hanswer, List.map_cons, Question.asked, gone_cons hgone]

/-- The first identity is removed, and the rest is swept. -/
theorem ComesThroughAll.swept {w : World (Watched σ)}
    {rest : Action (World (Watched σ)) (List String)} (hgone : saysGone q.answer = true)
    (h : ComesThroughAll R probe (update m₁ q.id none) (q.asked :: past) ids (rest.runFrom w)) :
    ComesThroughAll R probe m past (q.id :: ids) ((do return q.id :: (← rest)).runFrom w) := by
  obtain ⟨qs, m', hcourse, hids, hanswer, hheld, hasked⟩ := h
  rw [reverse_append_cons] at hasked
  rw [← q.leaves_of_gone hgone m₁] at hcourse
  rcases hrest : rest.runFrom w with ⟨r, w'⟩
  rw [hrest] at hanswer hheld hasked
  obtain rfl : r = _ := hanswer
  rw [runFrom_bind, hrest]
  refine ⟨q :: qs, m', .ask hbefore hrun hafter hcourse, ?_, ?_, hheld, hasked⟩
  · rw [List.map_cons, hids]
  · rw [List.map_cons, Question.asked, gone_cons_of_gone hgone]
    rfl

end Step

variable (hs : s.ActsAsMap R) (hp : ∀ id, Kept (HoldsAny R) (probe id))
include hs hp

/-- A sweep of some identities has a course through them. -/
theorem sweepEach_course {w : World (Watched σ)} (hw : R w.state.inner m)
    (hpast : w.state.asked = past) (ids : List String) :
    ComesThroughAll R probe m past ids
      ((sweepEach (watched s) (watch probe) ids).runFrom w) := by
  -- From each answer on it is a sweep of the rest, of whatever the storage then holds.
  induction ids generalizing m past w with
  | nil => exact ⟨[], m, .done m, rfl, rfl, hw, hpast⟩
  | cons id ids ih =>
    obtain ⟨⟨m₁, hm₁⟩, -⟩ := hp id w.unwatched ⟨m, hw⟩
    rcases hrun : (probe id).runFrom w.unwatched with ⟨answer, after⟩
    rw [hrun] at hm₁
    let q : Question σ := ⟨id, w.unwatched, answer, after⟩
    have hask : (watch probe id).Ends w answer fun w' =>
        R w'.state.inner m₁ ∧ w'.state.asked = q.asked :: past := by
      refine ⟨congrArg Prod.fst hrun, ?_, ?_⟩
      · show R ((probe id).runFrom w.unwatched).2.state m₁
        rw [hrun]
        exact hm₁
      · show (id, ((probe id).runFrom w.unwatched).1) :: w.state.asked = _
        rw [hrun, hpast]
        rfl
    refine hask.attempt.bind_run fun w₁ hw₁ => ?_
    obtain ⟨hheld, hasked⟩ := hw₁
    cases answer with
    | error f =>
      have hnote : (note .warning ("Skipping " ++ id ++ " during sweep, probe failed: " ++
          f.message)).Ends w₁ (.ok ()) fun w' =>
            R w'.state.inner m₁ ∧ w'.state.asked = q.asked :: past := ⟨rfl, hheld, hasked⟩
      refine hnote.bind_run fun w₂ hw₂ => ?_
      exact .passed (q := q) hw hrun hm₁ rfl (ih hw₂.1 hw₂.2)
    | ok alive =>
      cases alive with
      | true => exact .passed (q := q) hw hrun hm₁ rfl (ih hheld hasked)
      | false =>
        have hclear := clear_held (hs.watched (q.asked :: past)) ⟨hheld, hasked⟩ id
        refine hclear.bind_run fun w₂ hw₂ => ?_
        obtain ⟨hheld₂, hasked₂⟩ := hw₂
        exact .swept (q := q) hw hrun hm₁ rfl (ih hheld₂ hasked₂)

end Course

/-- **A sweep works on a snapshot**: the identities with tags before its first question.  Watching it
changes nothing and shows what was asked: about every identity of the snapshot, once and in order.
The sweep answers with those that the probe said are gone, and leaves what its course comes to; to
all the others it does nothing by itself. -/
structure OnSnapshot (s : Storage σ) (R : σ → Contents → Prop) (probe : Probe σ) (m : Contents)
    (w : World σ) (snapshot : List String) (qs : List (Question σ)) (m' : Contents) : Prop where
  listed : ((identities s).runFrom w).1 = .ok snapshot
  nodup : snapshot.Nodup
  mem_iff : ∀ id, id ∈ snapshot ↔ m.tags id ≠ []
  asks : qs.map Question.id = snapshot
  watched :
    let out := (sweep (watched s) (watch probe)).runFrom w.watching
    (sweep s probe).runFrom w = (out.1, out.2.unwatched) ∧
      out.2.state.asked.reverse = qs.map Question.asked
  course : Course R probe m qs m'
  ends : (sweep s probe).Ends w (.ok (gone (qs.map Question.asked))) fun w' => R w'.state m'
  spares : ∀ q ∈ qs, ∀ id, id ∉ gone (qs.map Question.asked) → ∀ m₁, q.leaves m₁ id = m₁ id

/-- Every sweep works on a snapshot, if its probe leaves a storage that holds something. -/
theorem exists_onSnapshot (hs : s.ActsAsMap R) {probe : Probe σ}
    (hp : ∀ id, Kept (HoldsAny R) (probe id)) (hw : R w.state m) :
    ∃ snapshot qs m', OnSnapshot s R probe m w snapshot qs m' := by
  have hwatching : R w.watching.state.inner m ∧ w.watching.state.asked = [] := ⟨hw, rfl⟩
  obtain ⟨snapshot, hnodup, hmem, hids⟩ := identities_listed (hs.watched []) hwatching
  have hlisted : ((identities s).runFrom w).1 = .ok snapshot := by
    have hplain := mirrors_identities s w.watching
    rw [hids.1] at hplain
    exact congrArg Prod.fst hplain
  have hsweep : ComesThroughAll R probe m [] snapshot
      ((sweep (watched s) (watch probe)).runFrom w.watching) := by
    refine hids.bind_run fun w₁ hw₁ => ?_
    have hcomes := sweepEach_course hs hp hw₁.1 hw₁.2 snapshot
    rw [runFrom_bind]
    rcases hrun : (sweepEach (watched s) (watch probe) snapshot).runFrom w₁ with ⟨f | removed, w₂⟩
    · rw [hrun] at hcomes
      exact hcomes
    · rw [hrun] at hcomes
      dsimp only
      split
      · exact hcomes
      · exact hcomes
  have hsame := mirrors_sweep s probe w.watching
  obtain ⟨qs, m', hcourse, hasks, hanswer, hheld, hasked⟩ := hsweep
  refine ⟨snapshot, qs, m', ⟨hlisted, hnodup, hmem, hasks, ⟨hsame, ?_⟩, hcourse, ?_, ?_⟩⟩
  · rw [hasked, List.append_nil, List.reverse_reverse]
  · exact ⟨(congrArg Prod.fst hsame).trans hanswer, (congrArg Prod.snd hsame) ▸ hheld⟩
  · intro q hq id hid m₁
    exact Question.leaves_of_notMem hq hid m₁

/-! ## Probes that leave the store alone -/

/-- A probe that leaves the store alone and answers by the identity. -/
def fixed (answer : String → Except Failure Bool) : Probe σ := fun id => .ofExcept (answer id)

theorem gone_fixed (answer : String → Except Failure Bool) (ids : List String) :
    gone (ids.map fun id => (id, answer id)) = ids.filter fun id => saysGone (answer id) := by
  rw [gone, List.filter_map, List.map_map]
  exact List.map_id _

theorem tags_without (m : Contents) (ids : List String) (id : String) :
    (m.without ids).tags id = if id ∈ ids then [] else m.tags id := by
  rw [Contents.tags, Contents.without]
  by_cases hid : id ∈ ids
  · rw [if_pos hid, if_pos hid]
    exact List.eraseDups_nil
  · rw [if_neg hid, if_neg hid, Contents.tags]

/-- A course with such a probe: the answers are known, and what is held in the end is what was held,
without the identities that are gone. -/
theorem Course.fixed (hs : s.ActsAsMap R) {answer : String → Except Failure Bool}
    {qs : List (Question σ)} (h : Course R (fixed answer) m qs m') :
    qs.map Question.asked = (qs.map Question.id).map (fun id => (id, answer id)) ∧
      m' = m.without (gone (qs.map Question.asked)) := by
  induction h with
  | done m => exact ⟨rfl, (Contents.without_nil m).symm⟩
  | @ask m m₁ m' q qs hbefore hrun hafter _ ih =>
    obtain ⟨hasked, hm'⟩ := ih
    obtain ⟨hanswer, hsame⟩ := Prod.mk.inj hrun
    rw [← hsame] at hafter
    obtain rfl : m = m₁ := hs.contents_unique hbefore hafter
    refine ⟨?_, ?_⟩
    · rw [List.map_cons, hasked, Question.asked, ← hanswer]
      rfl
    · rw [hm', List.map_cons, Question.asked]
      by_cases hgone : saysGone q.answer = true
      · rw [Question.leaves_of_gone hgone, gone_cons_of_gone hgone, Contents.without_cons]
      · have hnot : saysGone q.answer = false := Bool.eq_false_iff.2 hgone
        rw [Question.leaves_of_not_gone hnot, gone_cons hnot]

/-- A sweep with such a probe removes, of the identities with tags, those that are gone. -/
theorem sweep_fixed (hs : s.ActsAsMap R) (answer : String → Except Failure Bool)
    (hw : R w.state m) :
    ∃ snapshot, ((identities s).runFrom w).1 = .ok snapshot ∧ snapshot.Nodup ∧
      (∀ id, id ∈ snapshot ↔ m.tags id ≠ []) ∧
      (sweep s (fixed answer)).Ends w (.ok (snapshot.filter fun id => saysGone (answer id)))
        fun w' => R w'.state (m.without (snapshot.filter fun id => saysGone (answer id))) := by
  have hp : ∀ id, Kept (HoldsAny R) (fixed (σ := σ) answer id) := fun id w hw => ⟨hw, trivial⟩
  obtain ⟨snapshot, qs, m', h⟩ := exists_onSnapshot hs hp hw
  obtain ⟨hasked, hm'⟩ := Course.fixed hs h.course
  have hgone : gone (qs.map Question.asked) = snapshot.filter fun id => saysGone (answer id) := by
    rw [hasked, h.asks, gone_fixed]
  have hends := h.ends
  rw [hm', hgone] at hends
  exact ⟨snapshot, h.listed, h.nodup, h.mem_iff, hends⟩

/-- **What a sweep with a fixed probe comes to.**  It answers with those of the identities with tags
that are gone; those that still have tags are the others, with the same tags; and swept once more,
the store has nothing to remove. -/
structure RemovesGone (s : Storage σ) (R : σ → Contents → Prop)
    (answer : String → Except Failure Bool) (m : Contents) (w : World σ) (snapshot : List String)
    (m' : Contents) : Prop where
  listed : ((identities s).runFrom w).1 = .ok snapshot
  ends : (sweep s (fixed answer)).Ends w
    (.ok (snapshot.filter fun id => saysGone (answer id))) fun w' => R w'.state m'
  tagged_iff : ∀ id, m'.tags id ≠ [] ↔ m.tags id ≠ [] ∧ saysGone (answer id) = false
  kept : ∀ id, m'.tags id ≠ [] → m' id = m id
  settled : ∀ w', R w'.state m' → (sweep s (fixed answer)).Ends w' (.ok []) fun w'' => R w''.state m'

theorem exists_removesGone (hs : s.ActsAsMap R) (answer : String → Except Failure Bool)
    (hw : R w.state m) : ∃ snapshot m', RemovesGone s R answer m w snapshot m' := by
  obtain ⟨snapshot, hlisted, -, hmem, hends⟩ := sweep_fixed hs answer hw
  generalize hremoved : (snapshot.filter fun id => saysGone (answer id)) = removed at hends
  have hmem_removed : ∀ id, id ∈ removed ↔ m.tags id ≠ [] ∧ saysGone (answer id) = true := by
    intro id
    rw [← hremoved, List.mem_filter, hmem]
  have htagged : ∀ id, (m.without removed).tags id ≠ [] ↔
      m.tags id ≠ [] ∧ saysGone (answer id) = false := by
    intro id
    rw [tags_without]
    by_cases hid : id ∈ removed
    · obtain ⟨-, hgone⟩ := (hmem_removed id).1 hid
      simp [hid, hgone]
    · have hnot : m.tags id ≠ [] → saysGone (answer id) = false := by
        intro hne
        exact Bool.eq_false_iff.2 fun hgone => hid ((hmem_removed id).2 ⟨hne, hgone⟩)
      rw [if_neg hid]
      exact ⟨fun hne => ⟨hne, hnot hne⟩, fun h => h.1⟩
  refine ⟨snapshot, m.without removed, ⟨hlisted, ?_, htagged, ?_, ?_⟩⟩
  · rw [hremoved]
    exact hends
  · intro id hne
    rw [tags_without] at hne
    refine if_neg fun hid => hne ?_
    rw [if_pos hid]
  · -- Whoever is listed in the second sweep was not gone in the first.
    intro w' hw'
    obtain ⟨snapshot', -, -, hmem', hends'⟩ := sweep_fixed hs answer hw'
    have hnone : (snapshot'.filter fun id => saysGone (answer id)) = [] := by
      refine List.filter_eq_nil_iff.2 fun id hid => ?_
      obtain ⟨-, hnot⟩ := (htagged id).1 ((hmem' id).1 hid)
      rw [hnot]
      exact Bool.false_ne_true
    rw [hnone, Contents.without_nil] at hends'
    exact hends'

/-- **A sweep works on a snapshot whatever its probe does.**  Over a storage that never fails, with
any contents, a sweep whose probe is any program of a client for each identity works on the
identities that had tags before its first question; and if the probe leaves the store alone and
answers by the identity, it removes those that are gone, and nothing else. -/
theorem sweep_snapshot (hs : s.ActsAsMap R) (hw : R w.state m) :
    (∀ probe : String → Program, ∃ snapshot qs m',
      OnSnapshot s R (fun id => (probe id).run s) m w snapshot qs m') ∧
    ∀ answer : String → Except Failure Bool, ∃ snapshot m',
      RemovesGone s R answer m w snapshot m' := by
  refine ⟨fun probe => ?_, fun answer => exists_removesGone hs answer hw⟩
  exact exists_onSnapshot hs (fun id => (probe id).keeps_of_calls (call_kept_any hs)) hw

/-- The probe for the first identity says that it is gone, after it has taken the tags of the second
away, given tags to the first once more and moved those of the third. -/
theorem sweep_snapshot_of_meddling :
    let m : Contents := update (update (update (fun _ => none) "a" (some ["x", "x"])) "b"
      (some ["p q"])) "c" (some ["z"])
    let w : World Table :=
      ⟨[("a", ofNames ["x", "x"]), ("b", ofNames ["p q"]), ("c", ofNames ["z"])], Log.start 0⟩
    let probe : String → Program := fun id =>
      if id = "a" then
        .call (.clear "b") fun _ => .call (.set "a" [.text "y"]) fun _ =>
          .call (.rename "c" "d") fun _ => .answer false
      else .fail .wrongKind
    Holds w.state m ∧
      (∃ snapshot qs m', OnSnapshot memory Holds (fun id => (probe id).run memory) m w snapshot qs m') ∧
      ∃ snapshot m', RemovesGone memory Holds (fun id => .ok (id == "b")) m w snapshot m' := by
  intro m w probe
  have hw : Holds w.state m :=
    ((holds_nil.put "a" ["x", "x"]).put "b" ["p q"]).put "c" ["z"]
  obtain ⟨hprograms, hfixed⟩ := sweep_snapshot memory_actsAsMap hw
  exact ⟨hw, hprograms probe, hfixed _⟩

end FileTags.Store
