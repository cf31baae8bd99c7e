import FileTags.Proofs.Store.Returning
import FileTags.Proofs.Tag.Validation
import Mathlib.Data.Set.Defs
/-! # Keeping each tag once

Every list of tags that is read or written has the later occurrences dropped.  What is kept of a list
of texts is its first occurrences and no other list, and dropping obeys laws that the rest relies on:
dropping again changes nothing, so a record that was written is read as it is; what is appended is
kept as far as it is new, so tags that are added follow those that are there; and some texts may be
taken out before or after, so it makes no difference whether a record is cleaned before tags are taken
from it.

Tags that are accepted and set are therefore got back as first occurrences, and setting what was got
gives the same again, as often as one likes (`Store.cycles_end`).
-/
namespace FileTags

open FileTags.Action
open Record (ofNames)

/-- The first occurrences are what is left when later ones are dropped, and no other list is. -/
theorem firstOccurrences_iff {α : Type} [BEq α] [LawfulBEq α] {xs ys : List α} :
    FirstOccurrences xs ys ↔ ys = xs.eraseDups := by
  constructor
  · intro h
    exact h.unique (firstOccurrences_eraseDups xs)
  · rintro rfl
    exact firstOccurrences_eraseDups xs

/-! ## Setting and getting in turn -/

namespace Store

open FileTags.Storage

variable {σ γ : Type} (s : Storage σ)

/-- Sets tags and gets them, and then sets and gets what came back, some times more. -/
def cycles (id : String) (entries : List Value) : Nat → Action (World σ) Record
  | 0 => do
    set s id entries
    get s id
  | n + 1 => do
    set s id (← cycles id entries n)
    get s id

variable {s} {R : σ → γ → Prop} {find : γ → String → Option Record} {F : Failure → Prop}
  {w : World σ} {c : γ} {names : List String}

/-- Accepted tags that are set are got back, each once. -/
theorem set_get_ends (hs : s.Returns R find F) (id : String)
    (hv : ∀ n ∈ names, Tag.isName n = true) (hw : R w.state c) :
    EndsUnless (do
      set s id (ofNames names)
      get s id) F w (ofNames names.eraseDups) (Reads R find id names.eraseDups) := by
  refine (set_returned hs id hv hw).bind fun w₁ hw₁ => ?_
  have hget := get_returned hs hw₁
  rwa [eraseDups_eraseDups] at hget

/-- **Further cycles change nothing**: what came back is accepted again, and has each tag once. -/
theorem cycles_end (hs : s.Returns R find F) (id : String)
    (hv : ∀ n ∈ names, Tag.isName n = true) (hw : R w.state c) (n : Nat) :
    (cycles s id (ofNames names) n).EndsUnless F w (ofNames names.eraseDups)
      (Reads R find id names.eraseDups) := by
  induction n with
  | zero => exact set_get_ends hs id hv hw
  | succ n ih =>
    have hkept : ∀ k ∈ names.eraseDups, Tag.isName k = true :=
      fun k hk => hv k (List.mem_eraseDups.1 hk)
    refine ih.bind ?_
    rintro w₁ ⟨c₁, hw₁, -⟩
    have hagain := set_get_ends hs id hkept hw₁
    rwa [eraseDups_eraseDups] at hagain

end Store

/-! ## The laws -/

namespace Tag

open FileTags.Storage

/-- **Dropping later occurrences keeps the first ones, and obeys the laws of doing so.**  For any two
lists of texts: what is kept are the first occurrences and no other list; dropping again changes
nothing; of one list after the other, what is kept of the other follows as far as it is not in the
first; and any texts can be taken out before or after.  So over a storage that returns what was
written, accepted tags that are set are got back as the first occurrences, and stay so however often
what was got is set and got again, unless a call of the storage fails (with `F`, which holds of
nothing for a storage that never fails). -/
theorem keeps_first_occurrences (xs ys : List String) :
    ∃ kept others : List String,
      dedupe (ofNames xs) = .ok (ofNames kept) ∧
      dedupe (ofNames ys) = .ok (ofNames others) ∧
      (∀ zs, FirstOccurrences xs zs ↔ zs = kept) ∧
      dedupe (ofNames kept) = .ok (ofNames kept) ∧
      dedupe (ofNames (xs ++ ys)) = .ok (ofNames (kept ++ others.filter fun y => y ∉ xs)) ∧
      (∀ (r : Set String) [DecidablePred (· ∈ r)],
        dedupe (ofNames (xs.filter fun x => x ∉ r)) =
          .ok (ofNames (kept.filter fun x => x ∉ r))) ∧
      ((∀ x ∈ xs, isName x = true) → ∀ {σ γ : Type} {s : Storage σ} {R : σ → γ → Prop}
        {find : γ → String → Option Record} {F : Failure → Prop}, s.Returns R find F →
        ∀ (id : String) {w : World σ} {c : γ}, R w.state c → ∀ n,
          (Store.cycles s id (ofNames xs) n).EndsUnless F w (ofNames kept)
            (Store.Reads R find id kept)) := by
  refine ⟨xs.eraseDups, ys.eraseDups, dedupe_ofNames xs, dedupe_ofNames ys,
    fun zs => firstOccurrences_iff, ?_, ?_, fun r _ => ?_, ?_⟩
  · rw [dedupe_ofNames, eraseDups_eraseDups]
  · rw [dedupe_ofNames, eraseDups_append_filter, filter_eraseDups]
  · rw [dedupe_ofNames, filter_eraseDups]
  · intro hv σ γ s R find F hs id w c hw n
    exact Store.cycles_end hs id hv hw n

/-- Lists that overlap, set in place of a record of another program; and a storage of which the third
write fails. -/
theorem keeps_first_occurrences_of_overlap :
    let xs := ["b", "a", "b"]
    let table : Table := [("f", [.int 1, .text "z", .int 1])]
    let rules : Act → FailRule := fun act => if act = .write then .after 2 else .never
    let failure : Act → Failure := fun act => .storage (.stated (simulated act))
    let failing : World (Faulty Table) :=
      ⟨⟨table, Faults.ofRules rules failure, 0, 0, none⟩, Log.start 0⟩
    let Simulated : Failure → Prop := fun f => False ∨ ∃ act, f = failure act
    (∀ x ∈ xs, isName x = true) ∧ FirstOccurrences xs ["b", "a"] ∧
      dedupe (ofNames (xs ++ ["c", "a", "c"])) = .ok (ofNames ["b", "a", "c"]) ∧
      (∀ n, (Store.cycles memory "f" (ofNames xs) n).Ends ⟨table, Log.start 0⟩
        (.ok (ofNames ["b", "a"])) (Store.Reads Eq Entries.find? "f" ["b", "a"])) ∧
      ((Store.cycles (faulty memory) "f" (ofNames xs) 1).runFrom failing).1 =
        .ok (ofNames ["b", "a"]) ∧
      ((Store.cycles (faulty memory) "f" (ofNames xs) 2).runFrom failing).1 =
        .error (failure .write) ∧
      ∀ n, (Store.cycles (faulty memory) "f" (ofNames xs) n).EndsUnless Simulated failing
        (ofNames ["b", "a"])
        (Store.Reads (fun t c => t.inner = c ∧ t.faults.failure = failure) Entries.find? "f"
          ["b", "a"]) := by
  intro xs table rules failure failing Simulated
  have hv : ∀ x ∈ xs, isName x = true := by decide
  obtain ⟨kept, others, hxs, hys, hfirst, -, happend, -, hcycles⟩ :=
    keeps_first_occurrences xs ["c", "a", "c"]
  obtain rfl : ["b", "a"] = kept := Record.ofNames_injective (Except.ok.inj hxs)
  obtain rfl : ["c", "a"] = others := Record.ofNames_injective (Except.ok.inj hys)
  have hreturns := memory_neverFails.returns
  refine ⟨hv, (hfirst _).2 rfl, happend, fun n => ?_, rfl, rfl, fun n => ?_⟩
  · exact (hcycles hv hreturns "f" rfl n).ends
  · exact hcycles hv (hreturns.faulty failure) "f" ⟨rfl, rfl⟩ n

end Tag

end FileTags
