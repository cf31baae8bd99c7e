import FileTags.Proofs.Store.Operations
/-! # Renames under faults

A rename makes up to five calls of the storage: it reads the old identity and the new one, writes the
new one, deletes the old one, and if that last step fails it puts back what the new one had.  Any of
these calls can fail on its own (`Refusals`).

Tags are never lost by that (`rename_under_faults`).  The rename raises only if the very first read
fails, before anything has changed.  It answers yes exactly if the tags could be given to the new
identity (`Given`) and the old one deleted.  Whenever it answers no, the old identity has its record
still, and the store answers for the new one what it answered before, even if its record is one that
the store would not have written.  There is one exception, in which nothing is lost either: if both
the delete and the call that puts back fail, the new identity is left with a copy of the tags.
-/
namespace FileTags

namespace Storage

/-- Whether a call of an act for a key fails if so many calls of the act come before it. -/
def Faults.refuses (f : Faults) (act : Act) (earlier : Nat) (key : String) : Bool :=
  f.fails act (f.calls act + earlier) (some key)

end Storage

namespace Store

open Function (update)
open FileTags.Action FileTags.Storage
open Record (ofNames)

/-- Which of the calls that a rename can make fail. -/
structure Refusals where
  readOld : Bool
  readNew : Bool
  writeNew : Bool
  deleteOld : Bool
  /-- The call that puts back what the new identity had: a write, or a delete if it had nothing. -/
  restoreNew : Bool

/-- The calls of a rename that fail by a plan.  Each act is called at most twice. -/
def refusals (f : Faults) (m : Contents) (old new : String) : Refusals where
  readOld := f.refuses .read 0 old
  readNew := f.refuses .read 1 new
  writeNew := f.refuses .write 0 new
  deleteOld := f.refuses .delete 0 old
  restoreNew := f.refuses (actFor ((m new).getD [])) 1 new

/-- The old identity has tags that the store takes, and they can be given to the new one. -/
structure Given (no : Refusals) (m : Contents) (old new : String) : Prop where
  ne : old ≠ new
  tagged : m.tags old ≠ []
  valid : ∀ n ∈ m.tags old, Tag.isName n = true
  readOld : no.readOld = false
  readNew : no.readNew = false
  writeNew : no.writeNew = false

/-- The tags are given to the new identity, but neither can the old one be deleted nor can the new
one get back what it had. -/
structure Stuck (no : Refusals) (m : Contents) (old new : String) : Prop where
  given : Given no m old new
  deleteOld : no.deleteOld = true
  restoreNew : no.restoreNew = true

/-- **What comes of a rename** from the contents `m`: its result `r` and the contents `m'`. -/
structure RenameOutcome (no : Refusals) (m m' : Contents) (old new : String)
    (r : Except Failure Bool) : Prop where
  raises_iff : (∃ e, r = .error e) ↔ old ≠ new ∧ no.readOld = true
  raises : ∀ e, r = .error e → e.ofStorage = true ∧ m' = m
  moves_iff : r = .ok true ↔ Given no m old new ∧ no.deleteOld = false
  stays : ¬ (old ≠ new ∧ no.readOld = true) → ¬ (Given no m old new ∧ no.deleteOld = false) →
    r = .ok false
  moved : r = .ok true → m'.tags new = m.tags old ∧ m' old = none
  old_kept : r = .ok false → m' old = m old
  new_kept : r = .ok false → ¬ Stuck no m old new → m'.tags new = m.tags new
  new_copied : Stuck no m old new → r = .ok false ∧ m' new = some (m.tags old)
  others_kept : ∀ id, id ≠ old → id ≠ new → m' id = m id

namespace RenameOutcome

variable {no : Refusals} {m m' : Contents} {old new : String} {r : Except Failure Bool}

/-- The first read fails. -/
theorem of_unread {e : Failure} (he : e.ofStorage = true) (hne : old ≠ new)
    (hr : no.readOld = true) : RenameOutcome no m m old new (.error e) where
  raises_iff := iff_of_true ⟨e, rfl⟩ ⟨hne, hr⟩
  raises := fun _ h => ⟨Except.error.inj h ▸ he, rfl⟩
  moves_iff := iff_of_false nofun fun h => Bool.false_ne_true (h.1.readOld.symm.trans hr)
  stays := fun h => absurd ⟨hne, hr⟩ h
  moved := nofun
  old_kept := nofun
  new_kept := nofun
  new_copied := fun h => absurd (h.given.readOld.symm.trans hr) Bool.false_ne_true
  others_kept := fun _ _ _ => rfl

/-- Nothing is given to the new identity. -/
theorem of_not_given (hr : ¬ (old ≠ new ∧ no.readOld = true)) (hg : ¬ Given no m old new) :
    RenameOutcome no m m old new (.ok false) where
  raises_iff := iff_of_false nofun hr
  raises := nofun
  moves_iff := iff_of_false nofun fun h => hg h.1
  stays := fun _ _ => rfl
  moved := nofun
  old_kept := fun _ => rfl
  new_kept := fun _ _ => rfl
  new_copied := fun h => absurd h.given hg
  others_kept := fun _ _ _ => rfl

section Given
variable (hg : Given no m old new)
include hg

theorem tags_moved : Contents.tags (update (update m new (some (m.tags old))) old none) new =
    m.tags old := by
  rw [Contents.tags, Function.update_of_ne hg.ne.symm, Function.update_self, Option.getD_some]
  exact eraseDups_eraseDups _

/-- Every call goes through. -/
theorem of_moved (hd : no.deleteOld = false) :
    RenameOutcome no m (update (update m new (some (m.tags old))) old none) old new (.ok true) where
  raises_iff := iff_of_false nofun fun h => Bool.false_ne_true (hg.readOld.symm.trans h.2)
  raises := nofun
  moves_iff := iff_of_true rfl ⟨hg, hd⟩
  stays := fun _ h => absurd ⟨hg, hd⟩ h
  moved := fun _ => ⟨tags_moved hg, Function.update_self ..⟩
  old_kept := nofun
  new_kept := nofun
  new_copied := fun h => absurd (hd.symm.trans h.deleteOld) Bool.false_ne_true
  others_kept := fun id ho hn => by rw [Function.update_of_ne ho, Function.update_of_ne hn]

variable (hd : no.deleteOld = true)
include hd

/-- The old identity stays, and the new one gets back what it had. -/
theorem of_restored (hb : no.restoreNew = false) :
    RenameOutcome no m
      (update (update m new (some (m.tags old))) new (recordFor ((m new).getD []))) old new
      (.ok false) where
  raises_iff := iff_of_false nofun fun h => Bool.false_ne_true (hg.readOld.symm.trans h.2)
  raises := nofun
  moves_iff := iff_of_false nofun fun h => Bool.false_ne_true (h.2.symm.trans hd)
  stays := fun _ _ => rfl
  moved := nofun
  old_kept := fun _ => by rw [Function.update_of_ne hg.ne, Function.update_of_ne hg.ne]
  new_kept := fun _ _ => by
    rw [Contents.tags, Function.update_self, Contents.tags, getD_recordFor]
  new_copied := fun h => absurd (hb.symm.trans h.restoreNew) Bool.false_ne_true
  others_kept := fun id _ hn => by rw [Function.update_of_ne hn, Function.update_of_ne hn]

/-- Neither the delete nor the call that puts back goes through. -/
theorem of_stuck (hb : no.restoreNew = true) :
    RenameOutcome no m (update m new (some (m.tags old))) old new (.ok false) where
  raises_iff := iff_of_false nofun fun h => Bool.false_ne_true (hg.readOld.symm.trans h.2)
  raises := nofun
  moves_iff := iff_of_false nofun fun h => Bool.false_ne_true (h.2.symm.trans hd)
  stays := fun _ _ => rfl
  moved := nofun
  old_kept := fun _ => Function.update_of_ne hg.ne ..
  new_kept := fun _ h => absurd ⟨hg, hd, hb⟩ h
  new_copied := fun _ => ⟨rfl, Function.update_self ..⟩
  others_kept := fun _ _ hn => Function.update_of_ne hn ..

end Given

end RenameOutcome

/-! ## The calls of a rename -/

/-- The call that puts back comes after one call of its act, whichever that is. -/
theorem failing_restore (f : Faults) (names : List String) (id : String) :
    ((((f.counted .read).counted .read).counted .write).counted .delete).failing (actFor names)
      (some id) = f.refuses (actFor names) 1 id := by
  cases names <;> rfl

section Run
variable {σ : Type} {s : Storage σ} {V : σ → Contents → Faults → Prop} {w : World σ} {m : Contents}
  {f : Faults} {old new : String}

/-- What a rename comes to, from a world and its plan of faults. -/
def ComesTo (V : σ → Contents → Faults → Prop) (s : Storage σ) (m : Contents) (f : Faults)
    (old new : String) (w : World σ) : Prop :=
  ∃ r m' f', (rename s old new).Ends w r (Serving V m' f') ∧
    RenameOutcome (refusals f m old new) m m' old new r

variable (hs : s.Serves V) (hw : Serving V m f w) (hst : ∀ act, (f.failure act).ofStorage = true)
include hs hw hst

/-- The tags are given to the new identity, and the rename completes the move or undoes it. -/
theorem comesTo_of_given (hg : Given (refusals f m old new) m old new) :
    ComesTo V s m f old new w := by
  have ha : actFor (m.tags old) = .write := if_neg hg.tagged
  have hb : recordFor (m.tags old).eraseDups = some (m.tags old) := by
    rw [Contents.tags, eraseDups_eraseDups]
    exact if_neg hg.tagged
  -- Whatever becomes of the delete, the calls before it go through.
  have given : ∀ {r : Except Failure Bool} {Q : World σ → Prop},
      (∀ w', Serving V (update m new (some (m.tags old)))
          (((f.counted .read).counted .read).counted .write) w' →
        (complete s old new ((m new).map ofNames)).Ends w' r Q) →
      (rename s old new).Ends w r Q := by
    intro r Q hc
    refine rename_tagged hs hw hg.ne hg.readOld hg.tagged fun w₁ h₁ => ?_
    have h := give_ends hs h₁ hg.readNew hg.valid (by rw [ha]; exact hg.writeNew)
    rw [ha, hb] at h
    exact move_given h hc
  cases hd : (refusals f m old new).deleteOld with
  | false =>
    exact ⟨_, _, _, given fun w' h => complete_ends hs h new _ hd, .of_moved hg hd⟩
  | true =>
    refine ⟨_, _, _, given fun w' h => complete_fails hs h hst new rfl hd, ?_⟩
    rw [failing_restore]
    cases hn : f.refuses (actFor ((m new).getD [])) 1 new with
    | false =>
      rw [if_neg Bool.false_ne_true]
      exact .of_restored hg hd hn
    | true =>
      rw [if_pos rfl]
      exact .of_stuck hg hd hn

/-- **Whatever fails, a rename comes to one of its outcomes.** -/
theorem comesTo : ComesTo V s m f old new w := by
  by_cases hne : old = new
  · subst hne
    exact ⟨_, _, _, rename_self hw, .of_not_given (fun h => h.1 rfl) fun h => h.ne rfl⟩
  cases hr : f.failing .read (some old) with
  | true => exact ⟨_, _, _, rename_unread hs hw hne hr, .of_unread (hst _) hne hr⟩
  | false =>
    have hro : ¬ (old ≠ new ∧ (refusals f m old new).readOld = true) :=
      fun h => Bool.false_ne_true (hr.symm.trans h.2)
    by_cases ht : m.tags old = []
    · exact ⟨_, _, _, rename_untagged hs hw hne hr ht, .of_not_given hro fun h => h.tagged ht⟩
    have refused : ∀ {e : Failure} {f' : Faults}, (e.ofTags || e.ofStorage) = true →
        ¬ Given (refusals f m old new) m old new →
        (∀ w', Serving V m (f.counted .read) w' →
          (give s new (ofNames (m.tags old))).Ends w' (.error e) (Serving V m f')) →
        ComesTo V s m f old new w := by
      intro e f' he hg h
      exact ⟨_, _, _, rename_tagged hs hw hne hr ht fun w' hw' => move_refused he (h w' hw'),
        .of_not_given hro hg⟩
    cases hr' : (f.counted .read).failing .read (some new) with
    | true =>
      refine refused ?_ (fun h => ?_) fun w' hw' => give_unread hs hw' _ hr'
      · rw [Faults.failure_counted, hst, Bool.or_true]
      · exact Bool.false_ne_true (h.readNew.symm.trans hr')
    | false =>
      by_cases hv : ∀ n ∈ m.tags old, Tag.isName n = true
      · have ha : actFor (m.tags old) = .write := if_neg ht
        cases hf : ((f.counted .read).counted .read).failing .write (some new) with
        | true =>
          refine refused ?_ (fun h => ?_) fun w' hw' =>
            give_unset hs hw' hr' hv (by rw [ha]; exact hf)
          · rw [Faults.failure_counted, hst, Bool.or_true]
          · exact Bool.false_ne_true (h.writeNew.symm.trans hf)
        | false => exact comesTo_of_given hs hw hst ⟨hne, ht, hv, hr, hr', hf⟩
      · have htags : (Tag.refusal ((ofNames (m.tags old)).filter fun v => !Tag.isValid v)).ofTags = true := by
          rw [Record.filter_ofNames, Tag.refusal_ofNames]
          rfl
        refine refused (Bool.or_eq_true_iff.2 (.inl htags)) (fun h => hv h.valid) fun w' hw' =>
          give_invalid hs hw' hr' fun h => ?_
        exact hv fun n hn => h (.text n) (List.mem_map_of_mem hn)

end Run

section Faulty
variable {σ : Type} {s : Storage σ} {R : σ → Contents → Prop} {m : Contents}

/-- What the store answers with for an identity, from a state of its storage. -/
def answer (s : Storage σ) (t : σ) (id : String) : Except Failure Record :=
  ((get s id).runFrom ⟨t, Log.start 0⟩).1

/-- The store answers with the tags of the contents. -/
theorem answer_eq (hs : s.ActsAsMap R) {t : σ} (ht : R t m) (id : String) :
    answer s t id = .ok (ofNames (m.tags id)) :=
  (get_held (w := ⟨t, Log.start 0⟩) hs ht id).1

/-- **Renames never lose tags.**  Take any storage that acts as a map, with any contents, and let
its calls fail by any plan.  A rename leaves it with contents that are an outcome of the calls that
failed, and before and after it the store answers with the tags of the contents. -/
theorem rename_under_faults (hs : s.ActsAsMap R) {w : World (Faulty σ)} (hw : R w.state.inner m)
    (hst : ∀ act, (w.state.faults.failure act).ofStorage = true) (old new : String) :
    let after := (rename (faulty s) old new).runFrom w
    ∃ m', R after.2.state.inner m' ∧
      RenameOutcome (refusals w.state.faults m old new) m m' old new after.1 ∧
      (∀ id, answer s w.state.inner id = .ok (ofNames (m.tags id))) ∧
      ∀ id, answer s after.2.state.inner id = .ok (ofNames (m'.tags id)) := by
  have hcomes : ComesTo (fun F m f => R F.inner m ∧ F.faults = f) (faulty s) m w.state.faults
      old new w := comesTo hs.serves_faulty ⟨hw, rfl⟩ hst
  obtain ⟨r, m', f', ⟨hr, hheld⟩, hout⟩ := hcomes
  refine ⟨m', hheld.1, ?_, answer_eq hs hw, answer_eq hs hheld.1⟩
  rw [hr]
  exact hout

/-- The old identity cannot be deleted: the new one gets back a record that the store would not have
written. -/
theorem rename_under_faults_of_delete :
    let m : Contents :=
      update (update (fun _ => none) "a" (some ["x", "x", "y"])) "b" (some ["p q"])
    let faults : Faults :=
      .ofRules (fun act => if act = .delete then .onKeys ["a"] else .never)
        fun act => .storage (.stated (simulated act))
    let F : Faulty Table :=
      ⟨[("a", ofNames ["x", "x", "y"]), ("b", ofNames ["p q"])], faults, 0, 0, none⟩
    let after := (rename (faulty memory) "a" "b").runFrom ⟨F, Log.start 0⟩
    Holds F.inner m ∧ (∀ act, (faults.failure act).ofStorage = true) ∧
      ∃ m', Holds after.2.state.inner m' ∧
        RenameOutcome (refusals faults m "a" "b") m m' "a" "b" after.1 ∧
        (∀ id, answer memory F.inner id = .ok (ofNames (m.tags id))) ∧
        ∀ id, answer memory after.2.state.inner id = .ok (ofNames (m'.tags id)) := by
  intro m faults F after
  have hw : Holds F.inner m := (holds_nil.put "a" ["x", "x", "y"]).put "b" ["p q"]
  have hst : ∀ act, (faults.failure act).ofStorage = true := fun _ => rfl
  exact ⟨hw, hst, rename_under_faults memory_actsAsMap (w := ⟨F, Log.start 0⟩) hw hst "a" "b"⟩

end Faulty

end Store

end FileTags
