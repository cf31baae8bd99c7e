import FileTags.Proofs.Store.Operations
/-! # The store over a storage that returns what was written

The least that a storage is for is that a key is found to have what was last done to it.  `Returns`
asks for just that: nothing is said of the other keys, records may hold any values to begin with, and
calls may fail.  A storage that never fails is the case where there is nothing to fail with
(`NeverFails`).

It is enough to follow what the store does with one identity.  Once its tags were set, a list of names
is found under it (`Reads`), and from then on getting gives the names, each once.
-/
namespace FileTags

open FileTags.Action
open Record (ofNames)

namespace Storage

variable {σ γ : Type} {s : Storage σ} {R : σ → γ → Prop} {find : γ → String → Option Record}
  {F : Failure → Prop}

/-- **A storage returns what was written**, unless a call of it fails with `F`.  `R t c` says that the
state `t` holds the contents `c`, in which `find` finds the record of a key. -/
structure Returns (s : Storage σ) (R : σ → γ → Prop) (find : γ → String → Option Record)
    (F : Failure → Prop) : Prop where
  read : ∀ {t c} (k : String), R t c → (s.read k).EndsUnless F t (find c k) (R · c)
  write : ∀ {t c} (k : String) (names : List String), R t c →
    (s.write k (ofNames names)).EndsUnless F t ()
      fun t' => ∃ c', R t' c' ∧ find c' k = some (ofNames names)
  delete : ∀ {t c} (k : String), R t c → ∃ b,
    (s.delete k).EndsUnless F t b fun t' => ∃ c', R t' c' ∧ find c' k = none

/-- **A storage never fails.**  `R t c` says that the state `t` holds the contents `c`, in which
`find` finds the record of a key. -/
structure NeverFails (s : Storage σ) (R : σ → γ → Prop) (find : γ → String → Option Record) :
    Prop where
  read : ∀ {t c} (k : String), R t c → (s.read k).Ends t (.ok (find c k)) (R · c)
  write : ∀ {t c} (k : String) (names : List String), R t c →
    (s.write k (ofNames names)).Ends t (.ok ())
      fun t' => ∃ c', R t' c' ∧ find c' k = some (ofNames names)
  delete : ∀ {t c} (k : String), R t c → ∃ b,
    (s.delete k).Ends t (.ok b) fun t' => ∃ c', R t' c' ∧ find c' k = none

/-- A storage that never fails returns what was written. -/
theorem NeverFails.returns (hs : s.NeverFails R find) : s.Returns R find fun _ => False where
  read k h := (hs.read k h).endsUnless
  write k names h := (hs.write k names h).endsUnless
  delete k h := (hs.delete k h).imp fun _ => Ends.endsUnless

/-- The storage in memory never fails, and its contents are all of its entries in order. -/
theorem memory_neverFails : memory.NeverFails Eq Entries.find? where
  read k h := by
    subst h
    exact ⟨rfl, rfl⟩
  write {t _} k names _ := by
    refine ⟨rfl, Entries.put t k (ofNames names), rfl, ?_⟩
    rw [Entries.find?_put_self]
  delete {t _} k _ := by
    refine ⟨Entries.has t k, rfl, Entries.drop t k, rfl, ?_⟩
    rw [Entries.find?_drop, if_pos rfl]

/-! ## A storage whose calls are made to fail -/

section Faulty
variable {failure : Act → Failure}

/-- A guarded call ends as the call of the storage inside, unless it is made to fail. -/
theorem guarded_endsUnless {α : Type} {act : Act} {key : Option String} {call : Action σ α}
    {t : Faulty σ} {a : α} {Q : σ → Prop} (ht : t.faults.failure = failure)
    (h : call.EndsUnless F t.inner a Q) :
    (guardCall act key >>= fun _ => inside call).EndsUnless (fun f => F f ∨ ∃ act, f = failure act) t a
      fun t' => Q t'.inner ∧ t'.faults.failure = failure := by
  have hguard := guardCall_ends act key t
  by_cases hfails : t.faults.failing act key = true
  · rw [if_pos hfails] at hguard
    have hwhole : (guardCall act key >>= fun _ => inside call).Ends t (.error (t.faults.failure act))
        fun _ => True := Ends.bind_error (hguard.imp fun _ _ => trivial)
    exact .inr ⟨_, .inr ⟨act, by rw [ht]⟩, hwhole.1⟩
  · rw [if_neg hfails] at hguard
    refine hguard.endsUnless.bind ?_
    rintro t₁ ⟨hinner, hfaults⟩
    rw [← hinner] at h
    refine (EndsUnless.zoom h).imp (fun _ => Or.inl) ?_
    rintro t₂ ⟨t', rfl, hq⟩
    exact ⟨hq, by rw [hfaults]; exact ht⟩

/-- **Whatever calls are made to fail, a storage returns what was written.** -/
theorem Returns.faulty (hs : s.Returns R find F) (failure : Act → Failure) :
    (faulty s).Returns (fun t c => R t.inner c ∧ t.faults.failure = failure) find
      fun f => F f ∨ ∃ act, f = failure act where
  read k h := guarded_endsUnless h.2 (hs.read k h.1)
  write k names h := by
    refine (guarded_endsUnless h.2 (hs.write k names h.1)).imp (fun _ => id) ?_
    rintro t' ⟨⟨c', hc', hfind⟩, hfailure⟩
    exact ⟨c', ⟨hc', hfailure⟩, hfind⟩
  delete k h := by
    obtain ⟨b, hends⟩ := hs.delete k h.1
    refine ⟨b, (guarded_endsUnless h.2 hends).imp (fun _ => id) ?_⟩
    rintro t' ⟨⟨c', hc', hfind⟩, hfailure⟩
    exact ⟨c', ⟨hc', hfailure⟩, hfind⟩

end Faulty

end Storage

namespace Store

open FileTags.Storage

variable {σ γ : Type} {s : Storage σ} {R : σ → γ → Prop} {find : γ → String → Option Record}
  {w : World σ} {c : γ}

/-- The storage holds some contents, in which an identity has these names, or nothing for none. -/
def Reads (R : σ → γ → Prop) (find : γ → String → Option Record) (id : String)
    (names : List String) (w : World σ) : Prop :=
  ∃ c, R w.state c ∧ (find c id).getD [] = ofNames names

/-! ## Setting and getting -/

section Returns
variable {F : Failure → Prop} (hs : s.Returns R find F)
include hs

theorem get_returned {id : String} {names : List String} (hw : Reads R find id names w) :
    (get s id).EndsUnless F w (ofNames names.eraseDups) (Reads R find id names) := by
  obtain ⟨c, hw, hnames⟩ := hw
  refine (World.endsUnless_onState (hs.read id hw)).bind fun w' hw' => ?_
  rw [hnames, Tag.dedupe_ofNames]
  exact (ends_ofExcept _ ⟨c, hw', hnames⟩).endsUnless

theorem set_returned (id : String) {names : List String} (hv : ∀ n ∈ names, Tag.isName n = true)
    (hw : R w.state c) :
    (set s id (ofNames names)).EndsUnless F w () (Reads R find id names.eraseDups) := by
  rw [set, Tag.validateAll_ofNames hv]
  have hvalid : (Action.ofExcept (.ok (ofNames names.eraseDups))).Ends w
      (.ok (ofNames names.eraseDups)) fun w' => R w'.state c := ends_ofExcept _ hw
  refine hvalid.endsUnless.bind fun w₁ hw₁ => ?_
  rw [Record.isEmpty_ofNames]
  cases hnames : names.eraseDups with
  | nil =>
    obtain ⟨b, hends⟩ := hs.delete id hw₁
    refine (World.endsUnless_onState hends).bind ?_
    rintro w₂ ⟨c', hw₂, hnone⟩
    exact .inl ⟨rfl, c', hw₂, by rw [hnone]; rfl⟩
  | cons n ns =>
    refine (World.endsUnless_onState (hs.write id (n :: ns) hw₁)).bind ?_
    rintro w₂ ⟨c', hw₂, hfind⟩
    exact .inl ⟨rfl, c', hw₂, by rw [hfind, Option.getD_some]⟩

end Returns

/-! ## Calls of which none fails -/

section NeverFails
variable (hs : s.NeverFails R find)
include hs

theorem read_found (id : String) (hw : R w.state c) :
    (read s id).Ends w (.ok (find c id)) fun w' => R w'.state c :=
  World.ends_onState (hs.read id hw)

theorem get_holding (id : String) :
    (get s id).Keeps (fun w => R w.state c) fun _ => True := by
  intro w hw
  have hget : (get s id).Ends w (Tag.dedupe ((find c id).getD [])) fun w' => R w'.state c :=
    (read_found hs id hw).bind fun w' hw' => ends_ofExcept _ hw'
  exact ⟨hget.2, trivial⟩

theorem get_names {id : String} {names : List String} (hw : Reads R find id names w) :
    (get s id).Ends w (.ok (ofNames names.eraseDups)) (Reads R find id names) :=
  (get_returned hs.returns hw).ends

theorem delete_names (id : String) (hw : R w.state c) :
    ∃ b, (delete s id).Ends w (.ok b) (Reads R find id []) := by
  obtain ⟨b, hends⟩ := hs.delete id hw
  refine ⟨b, (World.ends_onState hends).imp ?_⟩
  rintro w' ⟨c', hw', hnone⟩
  exact ⟨c', hw', by rw [hnone]; rfl⟩

theorem clear_names (id : String) (hw : R w.state c) :
    (clear s id).Ends w (.ok ()) (Reads R find id []) := by
  obtain ⟨b, hends⟩ := delete_names hs id hw
  refine hends.bind fun w' hw' => ?_
  split
  · exact ⟨rfl, hw'⟩
  · exact ends_pure hw'

theorem set_names (id : String) {names : List String} (hv : ∀ n ∈ names, Tag.isName n = true)
    (hw : R w.state c) :
    (set s id (ofNames names)).Ends w (.ok ()) (Reads R find id names.eraseDups) :=
  (set_returned hs.returns id hv hw).ends

theorem complete_answers (old new : String) (previous : Option Record) (hw : R w.state c) :
    (complete s old new previous).Ends w (.ok true) fun _ => True := by
  obtain ⟨b, hdelete⟩ := delete_names hs old hw
  refine hdelete.attempt.bind fun w₁ _ => ?_
  exact ⟨rfl, trivial⟩

/-- Moving tags is never refused: tags that cannot be given stay where they are.  Only what cannot even be
shown fails, and changes nothing. -/
theorem move_answers (old new : String) (tags : List Value) (hw : R w.state c) :
    (∃ b, (move s old new tags).Ends w (.ok b) fun _ => True) ∨
      (move s old new tags).Ends w (.error .tooManyDigitsToShow) fun w' => R w'.state c := by
  have hread := read_found hs new hw
  by_cases hv : ∀ v ∈ tags, Tag.isValid v = true
  · obtain ⟨names, rfl, hn⟩ := Tag.exists_names hv
    have hgive : (give s new (ofNames names)).Ends w (.ok (find c new))
        (Reads R find new names.eraseDups) :=
      hread.bind fun w₁ hw₁ => (set_names hs new hn hw₁).bind fun w₂ hw₂ => ends_pure hw₂
    refine .inl ⟨true, move_given hgive ?_⟩
    rintro w₃ ⟨c', hw₃, -⟩
    exact complete_answers hs old new _ hw₃
  · have hgive : (give s new tags).Ends w
        (.error (Tag.refusal (tags.filter fun v => !Tag.isValid v))) fun w' => R w'.state c :=
      hread.bind fun w₁ hw₁ => (set_invalid hw₁ hv).bind_error
    rcases Tag.refusal_cases (tags.filter fun v => !Tag.isValid v) with ⟨-, hnamed⟩ | ⟨-, hunshown⟩
    · rw [hnamed] at hgive
      have hrefused : (move s old new tags).Ends w (.ok false)
          (Serving (fun t _ _ => R t c) (fun _ => none) .none) := move_refused rfl hgive
      exact .inl ⟨false, hrefused.imp fun _ _ => trivial⟩
    · rw [hunshown] at hgive
      exact .inr (move_failed rfl hgive)

end NeverFails

end Store

end FileTags
