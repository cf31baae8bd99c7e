import FileTags.Proofs.Store.Invariant
/-! # The store under faults

Any call of a storage may fail and leave the storage as it was.  What a client of the store can rely
on all the same is `Withstands`: a change that raises has changed nothing, no operation but a rename
swallows a failure of one of its own calls, and a sweep that is cut short has removed the identities
that its probe said are gone, from the first one up to some point.

`withstands_faults` says that this holds after every run of operations, for which calls of it failed
makes no difference to the records: after every single call of the storage they are sets of tags.

A sweep is followed over the storage whose calls fail, watched, so that there is a list of what the
probe was asked and what it said.  It asks identity by identity, and from each answer on it is a sweep
of the rest; so the induction is on the identities that are left, for whatever the storage holds.
-/
namespace FileTags

namespace Storage

open Function (update)

/-- The contents without the records of some identities. -/
def Contents.without (m : Contents) (ids : List String) : Contents :=
  fun id => if id ∈ ids then none else m id

theorem Contents.without_nil (m : Contents) : m.without [] = m :=
  funext fun _ => if_neg List.not_mem_nil

theorem Contents.without_cons (m : Contents) (id : String) (ids : List String) :
    m.without (id :: ids) = Contents.without (update m id none) ids := by
  funext j
  show (if j ∈ id :: ids then none else m j) = if j ∈ ids then none else update m id none j
  by_cases hids : j ∈ ids
  · rw [if_pos hids, if_pos (List.mem_cons_of_mem id hids)]
  by_cases hj : j = id
  · rw [if_neg hids, if_pos (List.mem_cons.2 (.inl hj)), hj, Function.update_self]
  · have hcons : ¬ j ∈ id :: ids := fun h => (List.mem_cons.1 h).elim hj hids
    rw [if_neg hids, if_neg hcons, Function.update_of_ne hj]

/-- Whether an answer says that the file is gone. -/
def saysGone : Except Failure Bool → Bool
  | .ok alive => !alive
  | .error _ => false

/-- The identities whose file is gone, by what a probe was asked and what it said. -/
def gone (asked : List (String × Except Failure Bool)) : List String :=
  (asked.filter fun a => saysGone a.2).map Prod.fst

theorem gone_cons_of_gone {answer : Except Failure Bool} (h : saysGone answer = true) (id : String)
    (asked : List (String × Except Failure Bool)) :
    gone ((id, answer) :: asked) = id :: gone asked := by
  simp only [gone, List.filter_cons, h, if_true, List.map_cons]

theorem gone_cons {answer : Except Failure Bool} (h : saysGone answer = false) (id : String)
    (asked : List (String × Except Failure Bool)) : gone ((id, answer) :: asked) = gone asked := by
  simp only [gone, List.filter_cons, h, Bool.false_eq_true, if_false]

end Storage

namespace Store

open Function (update)
open FileTags.Action FileTags.Storage
open Record (ofNames)

variable {σ : Type} {s : Storage σ} {R : σ → Contents → Prop} {m : Contents}

/-! ## Reading while calls fail -/

/-- What is held, and what a probe was asked so far. -/
def Holding (R : σ → Contents → Prop) (m : Contents) (asked : List (String × Except Failure Bool))
    (w : World (Watched (Faulty σ))) : Prop :=
  R w.state.inner.inner m ∧ w.state.asked = asked

/-- If a result is an answer, it is this one. -/
def Yields {α : Type} (a : α) (r : Except Failure α) : Prop := ∀ x, r = .ok x → x = a

theorem yields_ok {α : Type} (a : α) : Yields a (.ok a) := fun _ h => (Except.ok.inj h).symm

theorem yields_error {α : Type} (a : α) (f : Failure) : Yields a (.error f) := nofun

section Reading
variable {asked : List (String × Except Failure Bool)} {w : World (Watched (Faulty σ))}

theorem get_reads (hs : s.ActsAsMap R) (id : String) :
    (get (watched (faulty s)) id).Keeps (Holding R m asked) (Yields (ofNames (m.tags id))) := by
  rintro w ⟨hw, hasked⟩
  have hserves := hs.serves_faulty.watched asked
  cases hf : w.state.inner.faults.failing .read (some id) with
  | false =>
    obtain ⟨hr, ⟨hheld, -⟩, hasked'⟩ := get_ends hserves ⟨⟨hw, rfl⟩, hasked⟩ hf
    rw [hr]
    exact ⟨⟨hheld, hasked'⟩, yields_ok _⟩
  | true =>
    obtain ⟨hr, ⟨hheld, -⟩, hasked'⟩ := get_fails hserves ⟨⟨hw, rfl⟩, hasked⟩ hf
    rw [hr]
    exact ⟨⟨hheld, hasked'⟩, yields_error _ _⟩

theorem tagsOfEach_reads (hs : s.ActsAsMap R) (ids : List String) :
    (tagsOfEach (watched (faulty s)) ids).Keeps (Holding R m asked) (Yields (m.tagged ids)) := by
  induction ids with
  | nil => exact keeps_pure (yields_ok _)
  | cons id ids ih =>
    refine (get_reads hs id).bind (fun tags htags => ?_) fun _ _ => yields_error _ _
    refine ih.bind (fun rest hrest => keeps_pure ?_) fun _ _ => yields_error _ _
    rw [htags tags rfl, hrest rest rfl, Contents.tagged_cons, Record.isEmpty_ofNames]
    simp only [List.isEmpty_iff]
    exact yields_ok _

/-- The keys are those of the storage inside, unless they cannot be listed. -/
theorem keys_reads {snapshot : List String} (hw : Holding R m asked w)
    (hlisted : w.state.inner.listed = none)
    (hk : s.keys.Ends w.state.inner.inner (.ok snapshot) (R · m)) :
    ∃ r, (World.onState (watched (faulty s)).keys).Ends w r (Holding R m asked) ∧
      Yields snapshot r := by
  obtain ⟨hheld, hasked⟩ := hw
  have hg := guardCall_ends .keys none w.state.inner
  cases hf : w.state.inner.faults.failing .keys none with
  | true =>
    rw [hf, if_pos rfl] at hg
    have hkeys : (faulty s).keys.Ends w.state.inner (.error (w.state.inner.faults.failure .keys))
        fun F => R F.inner m := by
      refine Ends.bind_error (hg.imp ?_)
      rintro F ⟨hinner, -⟩
      rw [hinner]
      exact hheld
    refine ⟨_, (World.ends_onState (watchCall_ends hkeys)).imp ?_, yields_error _ _⟩
    rintro w' ⟨hheld', hasked'⟩
    exact ⟨hheld', hasked'.trans hasked⟩
  | false =>
    rw [hf, if_neg Bool.false_ne_true] at hg
    have hguard : (guardCall .keys none).Ends w.state.inner (.ok ())
        fun F => F.inner = w.state.inner.inner ∧ F.listed = none :=
      ⟨hg.1, hg.2.1, (guardCall_listed ..).trans hlisted⟩
    have hkeys : (faulty s).keys.Ends w.state.inner (.ok snapshot) fun F => R F.inner m := by
      refine hguard.bind ?_
      rintro F ⟨hinner, hnone⟩
      rw [← hinner] at hk
      have hinside : (inside s.keys).Ends F (.ok snapshot) fun F' =>
          ∃ t, F' = { F with inner := t } ∧ R t m := Ends.zoom hk
      refine hinside.bind ?_
      rintro F' ⟨t, rfl, ht⟩
      refine ⟨?_, ht⟩
      show Except.ok (F.listed.getD snapshot) = .ok snapshot
      rw [hnone, Option.getD_none]
    refine ⟨_, (World.ends_onState (watchCall_ends hkeys)).imp ?_, yields_ok _⟩
    rintro w' ⟨hheld', hasked'⟩
    exact ⟨hheld', hasked'.trans hasked⟩

/-- Records as the store writes them all have tags. -/
theorem keys_tagged_of_wellFormed (hm : m.WellFormed) {snapshot : List String}
    (hlists : m.Lists snapshot) : (m.tagged snapshot).map Prod.fst = snapshot := by
  rw [Contents.keys_tagged, List.filter_eq_self]
  intro id hid
  obtain ⟨names, hnames⟩ := Option.isSome_iff_exists.1 ((hlists.mem_iff id).1 hid)
  obtain ⟨hne, -⟩ := hm id names hnames
  rw [Contents.tags, hnames, Option.getD_some]
  exact decide_eq_true (mt eraseDups_eq_nil.1 hne)

/-- An action reads if it leaves what is held alone and, if it answers, answers with this. -/
def ReadsAs {α : Type} (R : σ → Contents → Prop) (m : Contents)
    (asked : List (String × Except Failure Bool)) (a : α)
    (out : Except Failure α × World (Watched (Faulty σ))) : Prop :=
  Holding R m asked out.2 ∧ Yields a out.1

section Listing
variable {snapshot : List String} (hs : s.ActsAsMap R) (hlists : m.Lists snapshot)
  (hw : Holding R m asked w) (hlisted : w.state.inner.listed = none)
  (hk : s.keys.Ends w.state.inner.inner (.ok snapshot) (R · m))
include hs hlists hw hlisted hk

theorem items_reads :
    ReadsAs R m asked (m.tagged snapshot) ((items (watched (faulty s))).runFrom w) := by
  obtain ⟨f | keys, hends, hkeys⟩ := keys_reads hw hlisted hk
  · have hfails : (items (watched (faulty s))).Ends w (.error f) (Holding R m asked) :=
      hends.bind_error
    obtain ⟨hr, hholding⟩ := hfails
    refine ⟨hholding, ?_⟩
    rw [hr]
    exact yields_error _ _
  · refine hends.bind_run fun w' hw' => ?_
    have hreads := tagsOfEach_reads hs (Tag.dedupeBy (· == ·) keys) w' hw'
    rw [hkeys keys rfl, Tag.dedupeBy_eq_eraseDups, eraseDups_of_nodup hlists.nodup] at hreads
    rw [hkeys keys rfl, Tag.dedupeBy_eq_eraseDups, eraseDups_of_nodup hlists.nodup]
    exact hreads

/-- Listing answers with all identities that have a record, unless it fails. -/
theorem identities_reads (hm : m.WellFormed) :
    ReadsAs R m asked snapshot ((identities (watched (faulty s))).runFrom w) := by
  have hitems := items_reads hs hlists hw hlisted hk
  rw [identities, runFrom_bind]
  rcases hrun : (items (watched (faulty s))).runFrom w with ⟨f | entries, w'⟩
  · rw [hrun] at hitems
    exact ⟨hitems.1, yields_error _ _⟩
  · rw [hrun] at hitems
    obtain ⟨hholding, hentries⟩ := hitems
    refine ⟨hholding, ?_⟩
    rw [hentries entries rfl]
    show Yields snapshot (.ok ((m.tagged snapshot).map Prod.fst))
    rw [keys_tagged_of_wellFormed hm hlists]
    exact yields_ok _

end Listing

end Reading
/-! ## A sweep that is cut short -/

/-- **How far a sweep comes** through some identities, by its result: what its probe is asked and
what it says, in order, and the identities that are removed. -/
structure ComesThrough (ids : List String) (asked : List (String × Except Failure Bool))
    (removed : List String) (r : Except Failure (List String)) : Prop where
  asks : asked.map Prod.fst <+: ids
  removes : removed <+: gone asked
  completes : ∀ swept, r = .ok swept →
    asked.map Prod.fst = ids ∧ removed = gone asked ∧ swept = removed

namespace ComesThrough

variable {ids removed : List String} {asked : List (String × Except Failure Bool)}
  {r : Except Failure (List String)}

theorem nil : ComesThrough [] [] [] (.ok []) where
  asks := List.prefix_rfl
  removes := List.prefix_rfl
  completes _ h := ⟨rfl, rfl, (Except.ok.inj h).symm⟩

/-- The sweep cannot remove the first identity. -/
theorem stopped (id : String) (ids : List String) (f : Failure) :
    ComesThrough (id :: ids) [(id, .ok false)] [] (.error f) where
  asks := List.cons_prefix_cons.2 ⟨rfl, List.nil_prefix⟩
  removes := List.nil_prefix
  completes := nofun

/-- The first identity is left alone. -/
theorem passed (h : ComesThrough ids asked removed r) (id : String) {answer : Except Failure Bool}
    (ha : saysGone answer = false) :
    ComesThrough (id :: ids) ((id, answer) :: asked) removed r where
  asks := List.cons_prefix_cons.2 ⟨rfl, h.asks⟩
  removes := by
    rw [gone_cons ha]
    exact h.removes
  completes swept hr := by
    obtain ⟨hasked, hremoved, hswept⟩ := h.completes swept hr
    rw [gone_cons ha, List.map_cons, hasked]
    exact ⟨rfl, hremoved, hswept⟩

/-- The first identity is removed, and the rest is swept. -/
theorem swept (h : ComesThrough ids asked removed r) (id : String) :
    ComesThrough (id :: ids) ((id, .ok false) :: asked) (id :: removed)
      (r.map fun rest => id :: rest) where
  asks := List.cons_prefix_cons.2 ⟨rfl, h.asks⟩
  removes := by
    rw [gone_cons_of_gone rfl]
    exact List.cons_prefix_cons.2 ⟨rfl, h.removes⟩
  completes swept hr := by
    cases r with
    | error f => cases hr
    | ok rest =>
      obtain ⟨hasked, hremoved, hrest⟩ := h.completes rest rfl
      have hswept : id :: rest = swept := Except.ok.inj hr
      rw [gone_cons_of_gone rfl, List.map_cons, hasked, ← hswept, hrest, hremoved]
      exact ⟨rfl, rfl, rfl⟩

end ComesThrough

/-- A probe that leaves what the storage holds alone. -/
def Still (R : σ → Contents → Prop) (probe : Probe (Faulty σ)) : Prop :=
  ∀ id w m, R w.state.inner m → R ((probe id).runFrom w).2.state.inner m

section Sweep
variable {probe : Probe (Faulty σ)} {w : World (Watched (Faulty σ))}
  {before : List (String × Except Failure Bool)}

/-- What a sweep of some identities comes to: how far it comes through them, and what is held after
it, without those that it removed. -/
def SweepsTo (R : σ → Contents → Prop) (m : Contents)
    (before : List (String × Except Failure Bool)) (ids : List String)
    (out : Except Failure (List String) × World (Watched (Faulty σ))) : Prop :=
  ∃ asked removed, ComesThrough ids asked removed out.1 ∧
    Holding R (m.without removed) (asked.reverse ++ before) out.2

theorem reverse_append_cons {α : Type} (a : α) (l before : List α) :
    l.reverse ++ a :: before = (a :: l).reverse ++ before := by
  rw [List.reverse_cons, List.append_assoc, List.singleton_append]

/-- An identity is left alone, and the rest is swept. -/
theorem SweepsTo.passed {ids : List String}
    {out : Except Failure (List String) × World (Watched (Faulty σ))} {id : String}
    {answer : Except Failure Bool} (h : SweepsTo R m ((id, answer) :: before) ids out)
    (ha : saysGone answer = false) : SweepsTo R m before (id :: ids) out := by
  obtain ⟨asked, removed, hcomes, hholding⟩ := h
  rw [reverse_append_cons] at hholding
  exact ⟨(id, answer) :: asked, removed, hcomes.passed id ha, hholding⟩

/-- An identity cannot be removed, which ends the sweep. -/
theorem SweepsTo.stopped {id : String} {ids : List String} {f : Failure}
    {act : Action (World (Watched (Faulty σ))) (List String)}
    (h : act.Ends w (.error f) (Holding R m ((id, .ok false) :: before))) :
    SweepsTo R m before (id :: ids) (act.runFrom w) := by
  obtain ⟨hr, hholding⟩ := h
  rw [← Contents.without_nil m] at hholding
  refine ⟨[(id, .ok false)], [], ?_, hholding⟩
  rw [hr]
  exact .stopped id ids f

/-- An identity is removed, and the rest is swept. -/
theorem SweepsTo.swept {id : String} {ids : List String}
    {rest : Action (World (Watched (Faulty σ))) (List String)}
    (h : SweepsTo R (update m id none) ((id, .ok false) :: before) ids (rest.runFrom w)) :
    SweepsTo R m before (id :: ids) ((do return id :: (← rest)).runFrom w) := by
  obtain ⟨asked, removed, hcomes, hholding⟩ := h
  rw [reverse_append_cons, ← Contents.without_cons] at hholding
  refine ⟨(id, .ok false) :: asked, id :: removed, ?_⟩
  rw [runFrom_bind]
  rcases hrun : rest.runFrom w with ⟨f | swept, w'⟩
  · rw [hrun] at hcomes hholding
    exact ⟨hcomes.swept id, hholding⟩
  · rw [hrun] at hcomes hholding
    exact ⟨hcomes.swept id, hholding⟩

/-- A sweep of some identities leaves what is held without those that it removed. -/
theorem sweepEach_sweepsTo (hs : s.ActsAsMap R) (hp : Still R probe) (ids : List String)
    (hw : Holding R m before w) :
    SweepsTo R m before ids ((sweepEach (watched (faulty s)) (watch probe) ids).runFrom w) := by
  induction ids generalizing m before w with
  | nil =>
    refine ⟨[], [], .nil, ?_⟩
    rw [Contents.without_nil]
    exact hw
  | cons id ids ih =>
    generalize hanswer : ((probe id).runFrom w.unwatched).1 = answer
    have hask : (watch probe id).Ends w answer (Holding R m ((id, answer) :: before)) := by
      refine ⟨hanswer, hp id w.unwatched m hw.1, ?_⟩
      show (id, ((probe id).runFrom w.unwatched).1) :: w.state.asked = (id, answer) :: before
      rw [hanswer, hw.2]
    refine hask.attempt.bind_run fun w₁ hw₁ => ?_
    cases answer with
    | error f =>
      have hnote : (note .warning ("Skipping " ++ id ++ " during sweep, probe failed: " ++
          f.message)).Ends w₁ (.ok ()) (Holding R m ((id, .error f) :: before)) := ⟨rfl, hw₁⟩
      exact hnote.bind_run fun w₂ hw₂ => (ih hw₂).passed rfl
    | ok alive =>
      cases alive with
      | true => exact (ih hw₁).passed rfl
      | false =>
        obtain ⟨hheld, hasked⟩ := hw₁
        have hserves := hs.serves_faulty.watched ((id, .ok false) :: before)
        cases hf : w₁.state.inner.faults.failing .delete (some id) with
        | true =>
          have hclear := clear_fails hserves ⟨⟨hheld, rfl⟩, hasked⟩ hf
          refine .stopped (Ends.bind_error (hclear.imp ?_))
          rintro w₂ ⟨⟨hheld₂, -⟩, hasked₂⟩
          exact ⟨hheld₂, hasked₂⟩
        | false =>
          have hclear := clear_ends hserves ⟨⟨hheld, rfl⟩, hasked⟩ hf
          refine hclear.bind_run fun w₂ hw₂ => ?_
          obtain ⟨⟨hheld₂, -⟩, hasked₂⟩ := hw₂
          exact (ih ⟨hheld₂, hasked₂⟩).swept

/-- **A sweep removes from the first identity on**, and leaves the rest as it was, however far it
comes.  If it cannot list the identities, it has asked nothing and removed nothing. -/
theorem sweep_sweepsTo (hs : s.ActsAsMap R) (hp : Still R probe) (hm : m.WellFormed)
    {snapshot : List String} (hlists : m.Lists snapshot) (hw : Holding R m before w)
    (hlisted : w.state.inner.listed = none)
    (hk : s.keys.Ends w.state.inner.inner (.ok snapshot) (R · m)) :
    SweepsTo R m before snapshot ((sweep (watched (faulty s)) (watch probe)).runFrom w) := by
  obtain ⟨hholding, hids⟩ := identities_reads hs hlists hw hlisted hk hm
  rw [sweep, runFrom_bind]
  rcases hrun : (identities (watched (faulty s))).runFrom w with ⟨f | ids, w₁⟩
  · rw [hrun] at hholding
    rw [← Contents.without_nil m] at hholding
    exact ⟨[], [], ⟨List.nil_prefix, List.nil_prefix, nofun⟩, hholding⟩
  · rw [hrun] at hholding hids
    obtain rfl : ids = snapshot := hids ids rfl
    have hsweep := sweepEach_sweepsTo hs hp ids hholding
    dsimp only
    rw [runFrom_bind]
    rcases hrest : (sweepEach (watched (faulty s)) (watch probe) ids).runFrom w₁ with
      ⟨f | removed, w₂⟩
    · rw [hrest] at hsweep
      exact hsweep
    · rw [hrest] at hsweep
      dsimp only
      split
      · exact hsweep
      · exact hsweep

end Sweep

/-! ## What a client can rely on -/

section Changes
variable {w : World (Faulty σ)} {f : Failure}

theorem set_raises (hs : s.ActsAsMap R) (hw : R w.state.inner m) (id : String)
    (entries : List Value) (h : ((set (faulty s) id entries).runFrom w).1 = .error f) :
    R ((set (faulty s) id entries).runFrom w).2.state.inner m := by
  by_cases hv : ∀ v ∈ entries, Tag.isValid v = true
  · obtain ⟨names, rfl, hn⟩ := Tag.exists_names hv
    cases hf : w.state.faults.failing (actFor names) (some id) with
    | false =>
      obtain ⟨hr, -⟩ := set_ends hs.serves_faulty ⟨hw, rfl⟩ hn hf
      cases h.symm.trans hr
    | true => exact (set_fails hs.serves_faulty ⟨hw, rfl⟩ hn hf).2.1
  · have hinvalid : (set (faulty s) id entries).Ends w _ fun w' => R w'.state.inner m :=
      set_invalid hw hv
    exact hinvalid.2

theorem clear_raises (hs : s.ActsAsMap R) (hw : R w.state.inner m) (id : String)
    (h : ((clear (faulty s) id).runFrom w).1 = .error f) :
    R ((clear (faulty s) id).runFrom w).2.state.inner m := by
  cases hf : w.state.faults.failing .delete (some id) with
  | false =>
    obtain ⟨hr, -⟩ := clear_ends hs.serves_faulty ⟨hw, rfl⟩ hf
    cases h.symm.trans hr
  | true => exact (clear_fails hs.serves_faulty ⟨hw, rfl⟩ hf).2.1

end Changes

/-- A failure of a call is what the whole ends with, and it is one of the storage. -/
def Surfaces {α : Type} (out : Except Failure α × World (Watched (Faulty σ))) : Prop :=
  ∀ f ∈ out.2.state.failures, out.1 = .error f ∧ f.ofStorage = true

/-- **What a client can rely on in a world whose storage fails.**  Each operation that is watched
here does what it does unwatched. -/
structure Withstands (s : Storage σ) (R : σ → Contents → Prop) (w : World (Faulty σ)) : Prop where
  set_raises : ∀ m id entries f, R w.state.inner m →
    ((set (faulty s) id entries).runFrom w).1 = .error f →
    R ((set (faulty s) id entries).runFrom w).2.state.inner m
  clear_raises : ∀ m id f, R w.state.inner m →
    ((clear (faulty s) id).runFrom w).1 = .error f →
    R ((clear (faulty s) id).runFrom w).2.state.inner m
  call_reports : ∀ c : Call, (∀ old new, c ≠ .rename old new) →
    let out := (c.act (watched (faulty s))).runFrom w.watching
    (c.act (faulty s)).runFrom w = (out.1, out.2.unwatched) ∧ Surfaces out
  sweep_reports : ∀ probe : String → Program,
    let plain := fun id => (probe id).run (faulty s)
    let out := (sweep (watched (faulty s)) (watch plain)).runFrom w.watching
    (sweep (faulty s) plain).runFrom w = (out.1, out.2.unwatched) ∧ Surfaces out
  /-- The identities that are removed are the first ones among those that the probe said are gone,
  and it was asked of the first ones among those that the storage listed. -/
  sweep_raises : ∀ m (probe : Probe (Faulty σ)), R w.state.inner m → Still R probe →
    let out := (sweep (watched (faulty s)) (watch probe)).runFrom w.watching
    let asked := out.2.state.asked.reverse
    (sweep (faulty s) probe).runFrom w = (out.1, out.2.unwatched) ∧
    ∀ f, out.1 = .error f → ∃ snapshot removed,
      (s.keys.runFrom w.state.inner).1 = .ok snapshot ∧ asked.map Prod.fst <+: snapshot ∧
      removed <+: gone asked ∧ R out.2.state.inner.inner (m.without removed)

theorem surfaces {α : Type} {I : Faulty σ → Prop} {w : World (Faulty σ)}
    {act : Action (World (Watched (Faulty σ))) α} (hr : Reports act) (hk : Kept (AllAlong I) act)
    (hi : I w.state) : Surfaces (act.runFrom w.watching) := by
  intro f hf
  have hstart : AllAlong I w.watching.state := ⟨hi, nofun, nofun⟩
  obtain ⟨⟨-, -, hstorage⟩, -⟩ := hk w.watching hstart
  rcases hr w.watching with hnone | ⟨f', hresult, hone⟩
  · rw [hnone] at hf
    cases hf
  · have hfailed : f = f' := by
      rw [hone] at hf
      exact List.mem_singleton.1 hf
    rw [hfailed]
    refine ⟨hresult, hstorage f' ?_⟩
    rw [hone]
    exact List.mem_singleton_self f'

/-- A world with records as the store writes them, and a storage that fails as storages do. -/
theorem withstands (hs : s.ActsAsMap R) {w : World (Faulty σ)}
    (hw : w.state.Sound (Recorded R)) : Withstands s R w where
  set_raises _ id entries _ h hr := set_raises hs h id entries hr
  clear_raises _ id _ h hr := clear_raises hs h id hr
  call_reports c hc := by
    have hsafe := hs.safe.faulty.watched
    exact ⟨mirrors_call_act (faulty s) c w.watching,
      surfaces (reports_call_act (faulty s) hc) (call_kept hsafe c) hw⟩
  sweep_reports probe := by
    have hsafe := hs.safe.faulty.watched
    refine ⟨mirrors_sweep (faulty s) _ w.watching,
      surfaces (reports_sweep (faulty s) _) (sweep_kept (call_kept hsafe) ?_) hw⟩
    exact watch_kept hs.safe.faulty probe
  sweep_raises m probe h hp := by
    refine ⟨mirrors_sweep (faulty s) _ w.watching, fun f _ => ?_⟩
    obtain ⟨m', hm', hwell⟩ := hw.inner
    obtain rfl : m' = m := hs.contents_unique hm' h
    obtain ⟨snapshot, hlists, hk⟩ := hs.keys h
    have hholding : Holding R m' [] w.watching := ⟨h, rfl⟩
    obtain ⟨asked, removed, hcomes, hheld, hasked⟩ :=
      sweep_sweepsTo hs hp hwell hlists hholding hw.listed hk
    rw [hasked, List.append_nil, List.reverse_reverse]
    exact ⟨snapshot, removed, hk.1, hcomes.asks, hcomes.removes, hheld⟩

/-- **The store withstands faults.**  Take any storage that acts as a map, with records as the store
writes them, and let its calls fail by any plan.  Whatever a client does with the operations of the
store, after each call of the storage its records are sets of tags, and the next operation does what
a client can rely on. -/
theorem withstands_faults (hs : s.ActsAsMap R) {w : World (Faulty σ)}
    (hw : w.state.Sound (Recorded R)) (p : Program) :
    let out := (p.run (watched (faulty s))).runFrom w.watching
    (p.run (faulty s)).runFrom w = (out.1, out.2.unwatched) ∧
      (∀ F ∈ out.2.state.visited, F.Sound (Recorded R)) ∧
      out.2.unwatched.state.Sound (Recorded R) ∧ Withstands s R out.2.unwatched := by
  intro out
  have hstart : AllAlong (Faulty.Sound (Recorded R)) w.watching.state := ⟨hw, nofun, nofun⟩
  obtain ⟨⟨hinner, hvisited, -⟩, -⟩ := p.keeps hs.safe.faulty.watched w.watching hstart
  exact ⟨p.mirrors (faulty s) w.watching, hvisited, hinner, withstands hs hinner⟩

/-- A rename that can neither be finished nor undone, and a sweep that is cut short by the same
failure. -/
theorem withstands_faults_of_delete :
    let faults : Faults :=
      .ofRules (fun act => if act = .delete then .onKeys ["a", "b"] else .never)
        fun act => .storage (.stated (simulated act))
    let F : Faulty Table :=
      ⟨[("c", ofNames ["z"]), ("a", ofNames ["x", "y"])], faults, 0, 0, none⟩
    let p : Program := .call (.rename "a" "b") fun _ =>
      .sweep (fun id => .answer (id == "d")) fun _ => .answer true
    let w : World (Faulty Table) := ⟨F, Log.start 0⟩
    F.Sound (Recorded Holds) ∧
      let out := (p.run (watched (faulty memory))).runFrom w.watching
      (p.run (faulty memory)).runFrom w = (out.1, out.2.unwatched) ∧
      (∀ G ∈ out.2.state.visited, G.Sound (Recorded Holds)) ∧
      out.2.unwatched.state.Sound (Recorded Holds) ∧ Withstands memory Holds out.2.unwatched := by
  intro faults F p w
  have hholds : Holds F.inner (update (update (fun _ => none) "c" (some ["z"])) "a"
      (some ["x", "y"])) := (holds_nil.put "c" ["z"]).put "a" ["x", "y"]
  have hwell : Contents.WellFormed (update (update (fun _ => none) "c" (some ["z"])) "a"
      (some ["x", "y"])) := by
    intro id names h
    by_cases ha : id = "a"
    · rw [ha, Function.update_self] at h
      cases h
      decide
    by_cases hc : id = "c"
    · rw [Function.update_of_ne ha, hc, Function.update_self] at h
      cases h
      decide
    · rw [Function.update_of_ne ha, Function.update_of_ne hc] at h
      cases h
  have hsound : w.state.Sound (Recorded Holds) :=
    { inner := ⟨_, hholds, hwell⟩, failures := fun _ => rfl, listed := rfl }
  exact ⟨hsound, withstands_faults memory_actsAsMap hsound p⟩

end Store

end FileTags
