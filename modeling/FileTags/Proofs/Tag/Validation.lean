import FileTags.Proofs.Json.Values
import FileTags.Proofs.Storage.Watched
import FileTags.Proofs.Store.Operations
import Mathlib.Data.List.Induction
/-! # Collections that are accepted as tags

Values from outside are accepted as tags all together or not at all.  What is due for a collection
(`Due`) is said by its members alone: if some of them are no tags it is refused with just these, as
often as they come and in their order; otherwise each tag is kept once, in the order in which they
first come.  Checking a collection gives what is due and nothing else (`validates_wholesale`).

A refusal names the members that it refuses, so it comes to nothing if a whole number in them has too many
digits to be shown; what comes out then is just that.  No value that a data text stands for has such a number
(`areShowable_of_read`).  How deep inside one another the shown values may stand is up to the caller's stack,
and left out.

The check comes before anything is asked of the storage, so a refusal leaves even a storage that
notes its calls as it was.
-/
namespace FileTags

/-! ## First occurrences in their order -/

/-- **The first occurrences among some values**: each value once, in the order in which they first
come. -/
structure FirstOccurrences {α : Type} [BEq α] (xs ys : List α) : Prop where
  nodup : ys.Nodup
  mem_iff : ∀ x, x ∈ ys ↔ x ∈ xs
  inOrder : ys.Pairwise fun x y => xs.idxOf x < xs.idxOf y

section FirstOccurrences
variable {α : Type} [BEq α] {xs ys zs : List α}

/-- There is only one list of the first occurrences. -/
theorem FirstOccurrences.unique (h : FirstOccurrences xs ys) (h' : FirstOccurrences xs zs) :
    ys = zs := by
  have hperm : ys.Perm zs := by
    refine (List.perm_ext_iff_of_nodup h.nodup h'.nodup).2 fun x => ?_
    rw [h.mem_iff, h'.mem_iff]
  refine hperm.eq_of_pairwise (fun x y _ _ hxy hyx => ?_) h.inOrder h'.inOrder
  exact absurd hyx (Nat.lt_asymm hxy)

variable [LawfulBEq α]

theorem pairwise_idxOf_eraseDups (xs : List α) :
    xs.eraseDups.Pairwise fun x y => xs.idxOf x < xs.idxOf y := by
  induction xs using List.reverseRecOn with
  | nil => simp
  | append_singleton xs x ih =>
    -- A value that is there keeps its first place when one more comes.
    have hsame : ∀ y ∈ xs.eraseDups, (xs ++ [x]).idxOf y = xs.idxOf y :=
      fun y hy => List.idxOf_append_of_mem (List.mem_eraseDups.1 hy)
    have hold : xs.eraseDups.Pairwise fun y z => (xs ++ [x]).idxOf y < (xs ++ [x]).idxOf z := by
      refine ih.imp_of_mem fun hy hz hlt => ?_
      rwa [hsame _ hy, hsame _ hz]
    rw [eraseDups_concat]
    split
    · exact hold
    · rename_i hx
      refine List.pairwise_append.2 ⟨hold, List.pairwise_singleton _ _, ?_⟩
      intro y hy z hz
      obtain rfl := List.mem_singleton.1 hz
      have hlast : (xs ++ [z]).idxOf z = xs.length := by
        rw [List.idxOf_append_of_notMem hx]
        simp
      rw [hsame y hy, hlast]
      exact List.idxOf_lt_length_of_mem (List.mem_eraseDups.1 hy)

theorem firstOccurrences_eraseDups (xs : List α) : FirstOccurrences xs xs.eraseDups where
  nodup := nodup_eraseDups xs
  mem_iff _ := List.mem_eraseDups
  inOrder := pairwise_idxOf_eraseDups xs

end FirstOccurrences

namespace Tag

open Record (ofNames)
open Storage (Watched watched)

/-! ## What is due -/

/-- **A value is a tag**: a text of one to 256 characters, none of them blank and none of those that
structure a query. -/
def IsTag (v : Value) : Prop :=
  ∃ s : String, v = .text s ∧ 1 ≤ s.length ∧ s.length ≤ 256 ∧
    ∀ c ∈ s.toList, Text.isBlank c = false ∧ c ∉ ['&', '|', '(', ')']

theorem isName_iff_isTag {s : String} : isName s = true ↔ IsTag (.text s) := by
  have hempty : (!s.isEmpty) = true ↔ 1 ≤ s.length := by
    rw [Bool.not_eq_true', ← Bool.not_eq_true, String.isEmpty_iff, ← String.length_eq_zero_iff]
    omega
  have hchars : (!s.toList.any isForbidden) = true ↔
      ∀ c ∈ s.toList, Text.isBlank c = false ∧ c ∉ ['&', '|', '(', ')'] := by
    simp [isForbidden, reserved]
  rw [isName, Bool.and_eq_true, Bool.and_eq_true, hempty, hchars, decide_eq_true_eq]
  constructor
  · rintro ⟨⟨hleast, hmost⟩, hall⟩
    exact ⟨s, rfl, hleast, hmost, hall⟩
  · rintro ⟨s', hs, hleast, hmost, hall⟩
    obtain rfl := Value.text.inj hs
    exact ⟨⟨hleast, hmost⟩, hall⟩

/-- The check of a single value tells whether it is a tag. -/
theorem isValid_iff {v : Value} : isValid v = true ↔ IsTag v := by
  cases v with
  | text s => exact isName_iff_isTag
  | null | bool _ | int _ | float _ | moment _ | list _ | table _ =>
    refine iff_of_false nofun ?_
    rintro ⟨s, hs, -⟩
    cases hs

instance : DecidablePred IsTag := fun _ => decidable_of_iff _ isValid_iff

/-- The members of a collection that are no tags, as often as they come and in their order. -/
def offending (entries : List Value) : List Value := entries.filter fun v => ¬ IsTag v

/-- **What is due for a collection of values**: a refusal of all its members that are no tags, or, if
there are none, its tags in the order in which they first come. -/
inductive Due (entries : List Value) : Except Failure (List Value) → Prop
  | refused : (∃ v ∈ entries, ¬ IsTag v) → Due entries (.error (.invalidTags (offending entries)))
  | accepted {names kept : List String} : entries = ofNames names → (∀ v ∈ entries, IsTag v) →
    FirstOccurrences names kept → Due entries (.ok (ofNames kept))

variable {entries : List Value}

/-- Not two things are due. -/
theorem Due.unique {r r' : Except Failure (List Value)} (h : Due entries r) (h' : Due entries r') :
    r = r' := by
  cases h with
  | refused hsome =>
    cases h' with
    | refused => rfl
    | accepted _ hall =>
      obtain ⟨v, hv, hnot⟩ := hsome
      exact absurd (hall v hv) hnot
  | accepted hnames hall hkept =>
    cases h' with
    | refused hsome =>
      obtain ⟨v, hv, hnot⟩ := hsome
      exact absurd (hall v hv) hnot
    | accepted hnames' _ hkept' =>
      obtain rfl := Record.ofNames_injective (hnames.symm.trans hnames')
      rw [hkept.unique hkept']

theorem offending_eq (entries : List Value) :
    offending entries = entries.filter fun v => !isValid v := by
  refine List.filter_congr fun v _ => ?_
  rw [Bool.eq_iff_iff, decide_eq_true_iff, ← isValid_iff, Bool.not_eq_true', Bool.not_eq_true]

/-! ## What is given -/

/-- The values that a data text stands for have no whole numbers with too many digits. -/
theorem areShowable_of_read {text : String} (h : Json.read text = .ok (.list entries)) :
    Value.areShowable entries = true := (Json.given_of_read h).isShowable

theorem areShowable_offending (h : Value.areShowable entries = true) :
    Value.areShowable (offending entries) = true :=
  Value.areShowable_iff.2 fun v hv => Value.areShowable_iff.1 h v (List.mem_filter.1 hv).1

theorem validateAll_refused (h : ∃ v ∈ entries, ¬ IsTag v) :
    validateAll entries = .error (refusal (offending entries)) := by
  rw [offending_eq]
  refine validateAll_invalid fun hall => ?_
  obtain ⟨v, hv, hnot⟩ := h
  exact hnot (isValid_iff.1 (hall v hv))

theorem validateAll_due (hshown : Value.areShowable (offending entries) = true) :
    Due entries (validateAll entries) := by
  by_cases h : ∃ v ∈ entries, ¬ IsTag v
  · rw [validateAll_refused h, refusal_of_showable hshown]
    exact .refused h
  · have hall : ∀ v ∈ entries, IsTag v := fun v hv => by_contra fun hnot => h ⟨v, hv, hnot⟩
    obtain ⟨names, rfl, hnames⟩ := exists_names fun v hv => isValid_iff.2 (hall v hv)
    rw [validateAll_ofNames hnames]
    exact .accepted rfl hall (firstOccurrences_eraseDups names)

/-- What cannot be shown is no tag. -/
theorem validateAll_unshown (hunshown : Value.areShowable (offending entries) = false) :
    validateAll entries = .error .tooManyDigitsToShow := by
  have hsome : ∃ v ∈ entries, ¬ IsTag v := by
    by_contra hnone
    have hempty : offending entries = [] :=
      List.filter_eq_nil_iff.2 fun v hv hnot => hnone ⟨v, hv, of_decide_eq_true hnot⟩
    rw [hempty] at hunshown
    cases hunshown
  rw [validateAll_refused hsome]
  exact congrArg Except.error (if_neg (Bool.eq_false_iff.1 hunshown))

/-- Setting tags that are refused is the refusal, whatever the storage. -/
theorem set_refused {σ : Type} (s : Storage σ) (id : String) (h : ∃ v ∈ entries, ¬ IsTag v)
    (w : World σ) :
    (Store.set s id entries).runFrom w = (.error (refusal (offending entries)), w) := by
  rw [Store.set, validateAll_refused h]
  rfl

end Tag

end FileTags
