import FileTags.Listing
import FileTags.Storage.Basic
import FileTags.Tag
/-! # Records of names

The store writes lists of tags, which are texts; a record is a list of values of any kind.  The
record of a list of names is where the two meet: on it the store's own rules (`Tag.dedupe`,
`Tag.validateAll`) are rules about lists of texts, and dropping later occurrences is the library's
`List.eraseDups`.
-/
namespace FileTags

/-! ## First occurrences -/

theorem nodup_eraseDups {α : Type} [BEq α] [LawfulBEq α] (xs : List α) : xs.eraseDups.Nodup := by
  match xs with
  | [] => rw [List.eraseDups_nil]; exact List.nodup_nil
  | x :: xs =>
    rw [List.eraseDups_cons]
    refine List.nodup_cons.2 ⟨?_, nodup_eraseDups _⟩
    intro h
    have := (List.mem_filter.1 (List.mem_eraseDups.1 h)).2
    simp at this
termination_by xs.length
decreasing_by exact Nat.lt_succ_of_le (List.length_filter_le ..)

theorem eraseDups_of_nodup {α : Type} [BEq α] [LawfulBEq α] {xs : List α} (h : xs.Nodup) :
    xs.eraseDups = xs := by
  induction xs with
  | nil => exact List.eraseDups_nil
  | cons x xs ih =>
    obtain ⟨hx, hxs⟩ := List.nodup_cons.1 h
    have hf : xs.filter (fun b => !b == x) = xs :=
      List.filter_eq_self.2 fun b hb => by simp [show b ≠ x from fun e => hx (e ▸ hb)]
    rw [List.eraseDups_cons, hf, ih hxs]

theorem eraseDups_eq_nil {α : Type} [BEq α] {xs : List α} : xs.eraseDups = [] ↔ xs = [] := by
  cases xs with
  | nil => simp
  | cons x xs => simp [List.eraseDups_cons]

@[simp] theorem eraseDups_eraseDups {α : Type} [BEq α] [LawfulBEq α] (xs : List α) :
    xs.eraseDups.eraseDups = xs.eraseDups := eraseDups_of_nodup (nodup_eraseDups xs)

/-- Of what is appended the first occurrences follow, as far as they were not there. -/
theorem eraseDups_append_filter {α : Type} [BEq α] [LawfulBEq α] (xs ys : List α) :
    (xs ++ ys).eraseDups = xs.eraseDups ++ (ys.filter fun y => y ∉ xs).eraseDups := by
  have hremove : ys.removeAll xs = ys.filter fun y => y ∉ xs :=
    List.filter_congr fun y _ => by simp
  rw [List.eraseDups_append, hremove]

/-- One value more comes last, unless it was there. -/
theorem eraseDups_concat {α : Type} [BEq α] [LawfulBEq α] (xs : List α) (x : α) :
    (xs ++ [x]).eraseDups = if x ∈ xs then xs.eraseDups else xs.eraseDups ++ [x] := by
  rw [eraseDups_append_filter]
  by_cases h : x ∈ xs
  · simp [h]
  · simp [h, List.eraseDups_cons]

theorem filter_eraseDups {α : Type} [BEq α] [LawfulBEq α] (p : α → Bool) (xs : List α) :
    (xs.filter p).eraseDups = xs.eraseDups.filter p := by
  match xs with
  | [] => simp
  | x :: xs =>
    have ih := filter_eraseDups p (xs.filter fun b => !b == x)
    have hcomm : (xs.filter p).filter (fun b => !b == x) = (xs.filter fun b => !b == x).filter p := by
      simp only [List.filter_filter, Bool.and_comm]
    -- A first value that is kept is dropped from what follows on both sides; one that is not is
    -- dropped before the filter sees it again.
    by_cases hx : p x = true
    · rw [List.filter_cons_of_pos hx, List.eraseDups_cons, List.eraseDups_cons,
        List.filter_cons_of_pos hx, hcomm, ih]
    · have hdrop : (xs.filter fun b => !b == x).filter p = xs.filter p := by
        rw [List.filter_filter]
        refine List.filter_congr fun b _ => ?_
        by_cases hb : b = x
        · simp [hb, Bool.eq_false_iff.2 hx]
        · simp [hb]
      rw [List.filter_cons_of_neg hx, List.eraseDups_cons, List.filter_cons_of_neg hx, ← ih, hdrop]
termination_by xs.length
decreasing_by exact Nat.lt_succ_of_le (List.length_filter_le ..)

/-- Dropping what is the same as an earlier value keeps the first occurrences. -/
theorem Tag.dedupeBy_eq_eraseDups {α : Type} [BEq α] [LawfulBEq α] (xs : List α) :
    Tag.dedupeBy (· == ·) xs = xs.eraseDups := by
  induction xs with
  | nil => rw [Tag.dedupeBy, List.eraseDups_nil]
  | cons x xs ih =>
    rw [Tag.dedupeBy, ih, List.eraseDups_cons, filter_eraseDups]
    simp only [BEq.comm]

/-! ## Sorting by a key -/

/-- Sorted by keys of which no two are the same, the keys strictly increase. -/
theorem pairwise_lt_mergeSort {α : Type} (key : α → String) {xs : List α}
    (h : (xs.map key).Nodup) :
    (xs.mergeSort fun a b => key a ≤ key b).Pairwise fun a b => key a < key b := by
  have htrans : ∀ a b c : α, decide (key a ≤ key b) = true → decide (key b ≤ key c) = true →
      decide (key a ≤ key c) = true :=
    fun a b c hab hbc =>
      decide_eq_true (String.le_trans (of_decide_eq_true hab) (of_decide_eq_true hbc))
  have htotal : ∀ a b : α, (decide (key a ≤ key b) || decide (key b ≤ key a)) = true := by
    intro a b
    rw [Bool.or_eq_true, decide_eq_true_iff, decide_eq_true_iff]
    exact String.le_total (key a) (key b)
  have hle := List.pairwise_mergeSort htrans htotal xs
  have hne : (xs.mergeSort fun a b => key a ≤ key b).Pairwise fun a b => key a ≠ key b :=
    List.pairwise_map.1 (((List.mergeSort_perm xs _).map key).nodup_iff.2 h)
  exact (hle.and hne).imp fun hboth => Std.lt_of_le_of_ne (of_decide_eq_true hboth.1) hboth.2

/-! ## The record of a list of names -/

/-- The record that holds some names. -/
def Record.ofNames (names : List String) : Record := names.map .text

namespace Record

@[simp] theorem isEmpty_ofNames (names : List String) :
    List.isEmpty (ofNames names) = names.isEmpty := by
  cases names <;> rfl

theorem ofNames_injective {names names' : List String} (h : ofNames names = ofNames names') :
    names = names' :=
  (List.map_inj_right fun _ _ => Value.text.inj).1 h

/-- The names among some values are read back from the record that holds them. -/
@[simp] theorem texts_ofNames (names : List String) :
    List.filterMap Value.text? (ofNames names) = names := by
  induction names with
  | nil => rfl
  | cons n ns ih => exact congrArg (n :: ·) ih

theorem all_ofNames (p : Value → Bool) (names : List String) :
    List.all (ofNames names) p = names.all fun n => p (.text n) := List.all_map

theorem filter_ofNames (p : Value → Bool) (names : List String) :
    List.filter p (ofNames names) = ofNames (names.filter fun n => p (.text n)) := List.filter_map

/-- The record of the names that a record of texts holds is the record itself. -/
theorem ofNames_texts {r : Record} (h : ∀ v ∈ r, v.isText = true) :
    ofNames (List.filterMap Value.text? r) = r := by
  induction r with
  | nil => rfl
  | cons v vs ih =>
    obtain ⟨hv, hvs⟩ := List.forall_mem_cons.1 h
    cases v with
    | text n => exact congrArg (Value.text n :: ·) (ih hvs)
    | null | bool _ | int _ | float _ | moment _ | list _ | table _ => cases hv

end Record

namespace Value

open Record (ofNames)

theorem same_text_iff {s : String} {v : Value} : same (.text s) v = true ↔ v = .text s := by
  cases v with
  | text t =>
    show (s == t) = true ↔ _
    rw [beq_iff_eq, text.injEq, eq_comm]
  | null | bool _ | int _ | float _ | moment _ | list _ | table _ => exact iff_of_false nofun nofun

/-- Among names a text is looked for by itself. -/
theorem any_same_ofNames (name : String) (names : List String) :
    (ofNames names).any (same (.text name)) = names.contains name := by
  rw [Bool.eq_iff_iff, List.any_eq_true, List.contains_iff_mem]
  constructor
  · rintro ⟨v, hv, hsame⟩
    obtain ⟨n, hn, rfl⟩ := List.mem_map.1 hv
    obtain rfl := text.inj (same_text_iff.1 hsame)
    exact hn
  · intro h
    exact ⟨.text name, List.mem_map_of_mem h, same_text_iff.2 rfl⟩

/-- Texts are in the order of their characters. -/
theorem compare?_text (a b : String) :
    (compare? (.text a) (.text b) != some .gt) = decide (a ≤ b) := by
  show (some (compareOfLessAndEq a b) != some .gt) = decide (a ≤ b)
  rw [compareOfLessAndEq]
  by_cases hlt : a < b
  · rw [if_pos hlt, decide_eq_true (Std.le_of_lt hlt)]
    rfl
  · rw [if_neg hlt]
    by_cases heq : a = b
    · rw [if_pos heq, decide_eq_true (heq ▸ String.le_refl a)]
      rfl
    · rw [if_neg heq, decide_eq_false fun hle => hlt (Std.lt_of_le_of_ne hle heq)]
      rfl

/-- **Texts have an order among them**, and are sorted by it. -/
theorem sort?_ofNames (names : List String) :
    sort? (ofNames names) = some (ofNames (names.mergeSort fun a b => a ≤ b)) := by
  have htexts : (ofNames names).all isText = true := by
    rw [Record.all_ofNames]
    exact List.all_eq_true.2 fun _ _ => rfl
  have hsort : ofNames (names.mergeSort fun a b => a ≤ b) =
      (ofNames names).mergeSort fun v w => compare? v w != some .gt :=
    List.map_mergeSort fun a _ b _ => (compare?_text a b).symm
  rw [sort?, htexts, Bool.true_or, if_pos rfl, hsort]
  match names with
  | [] => exact (if_pos (Nat.zero_le 1)).trans (congrArg some List.mergeSort_nil.symm)
  | [name] => exact (if_pos (Nat.le_refl 1)).trans (congrArg some (List.mergeSort_singleton _).symm)
  | a :: b :: rest => exact if_neg (Nat.not_le_of_lt (Nat.le_add_left 2 _))

end Value

namespace Tag

open Record (ofNames)

theorem dedupeBy_ofNames (names : List String) :
    dedupeBy Value.same (ofNames names) = ofNames names.eraseDups := by
  rw [← dedupeBy_eq_eraseDups]
  induction names with
  | nil => rfl
  | cons n ns ih =>
    show Value.text n :: (dedupeBy Value.same (ofNames ns)).filter _ = Value.text n :: List.map _ _
    rw [ih, Record.filter_ofNames]
    rfl

theorem mem_dedupeBy {α : Type} {same : α → α → Bool} {a : α} {as : List α}
    (h : a ∈ dedupeBy same as) : a ∈ as := by
  induction as with
  | nil => cases h
  | cons b bs ih =>
    rcases List.mem_cons.1 h with rfl | h
    · exact List.mem_cons_self
    · exact List.mem_cons_of_mem b (ih (List.mem_filter.1 h).1)

/-- Of a record of names the store keeps the first occurrences. -/
theorem dedupe_ofNames (names : List String) :
    dedupe (ofNames names) = .ok (ofNames names.eraseDups) := by
  have h : (ofNames names).all Value.isAtomic = true := by
    rw [Record.all_ofNames]
    exact List.all_eq_true.2 fun _ _ => rfl
  rw [dedupe, if_pos h, dedupeBy_ofNames]

/-- Entries that are all tags are the record of their names. -/
theorem exists_names {entries : List Value} (h : ∀ v ∈ entries, isValid v = true) :
    ∃ names, entries = ofNames names ∧ ∀ n ∈ names, isName n = true := by
  have ht : ∀ v ∈ entries, v.isText = true := by
    intro v hv
    have := h v hv
    cases v with
    | text n => rfl
    | null | bool _ | int _ | float _ | moment _ | list _ | table _ => cases this
  refine ⟨List.filterMap Value.text? entries, (Record.ofNames_texts ht).symm, ?_⟩
  intro n hn
  rw [← Record.ofNames_texts ht] at h
  exact h (.text n) (List.mem_map_of_mem hn)

/-- The refusal names the entries, unless there are too many digits in them to be shown. -/
theorem refusal_cases (invalid : List Value) :
    Value.areShowable invalid = true ∧ refusal invalid = .invalidTags invalid ∨
      Value.areShowable invalid = false ∧ refusal invalid = .tooManyDigitsToShow := by
  rw [refusal, Failure.showing, Value.isShowable]
  cases Value.areShowable invalid with
  | true => exact .inl ⟨rfl, rfl⟩
  | false => exact .inr ⟨rfl, rfl⟩

theorem refusal_of_showable {invalid : List Value} (h : Value.areShowable invalid = true) :
    refusal invalid = .invalidTags invalid := if_pos h

/-- Texts can always be shown. -/
theorem refusal_ofNames (names : List String) : refusal (ofNames names) = .invalidTags (ofNames names) := by
  refine refusal_of_showable (Value.areShowable_iff.2 fun v hv => ?_)
  obtain ⟨name, -, rfl⟩ := List.mem_map.1 hv
  rfl

/-- Entries that are not all tags are refused, and the refusal names those that are none. -/
theorem validateAll_invalid {entries : List Value} (h : ¬ ∀ v ∈ entries, isValid v = true) :
    validateAll entries = .error (refusal (entries.filter fun v => !isValid v)) := by
  have hne : (entries.filter fun v => !isValid v).isEmpty = false := by
    rw [List.isEmpty_eq_false_iff, ne_eq, List.filter_eq_nil_iff]
    intro hall
    exact h fun v hv => by simpa using hall v hv
  rw [validateAll]
  simp only [hne, Bool.false_eq_true, if_false]

theorem validateAll_ofNames {names : List String} (h : ∀ n ∈ names, isName n = true) :
    validateAll (ofNames names) = .ok (ofNames names.eraseDups) := by
  have he : ((ofNames names).filter fun v => !isValid v).isEmpty = true := by
    rw [Record.filter_ofNames, Record.isEmpty_ofNames, List.isEmpty_iff, List.filter_eq_nil_iff]
    intro n hn
    simp [isValid, h n hn]
  rw [validateAll]
  simp only [he, if_true, dedupe_ofNames]

end Tag

/-! ## Names on a line -/

section
open Record (ofNames)

theorem Value.texts?_ofNames (names : List String) : texts? (ofNames names) = some names := by
  induction names with
  | nil => rfl
  | cons n ns ih =>
    have hrest : (ofNames ns).mapM text? = some ns := ih
    show (Value.text n :: ofNames ns).mapM text? = some (n :: ns)
    rw [List.mapM_cons, hrest]
    rfl

theorem joinTexts_ofNames (separator : String) (names : List String) :
    joinTexts separator (ofNames names) = .ok (String.intercalate separator names) := by
  rw [joinTexts, Value.texts?_ofNames]

end

end FileTags
