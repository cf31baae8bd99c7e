import FileTags.Entries
import Mathlib.Data.List.Induction
import Mathlib.Data.List.Nodup
/-! # Entries under other names

What holds of entries and of what is made of each value in them: finding, putting and taking out do
not look at the values, so they go through when all values are replaced.
-/
namespace FileTags.Entries

variable {κ α β : Type}

/-- The entries with all their values replaced. -/
def mapValues (f : α → β) (es : Entries κ α) : Entries κ β := es.map fun e => (e.1, f e.2)

theorem keys_mapValues (f : α → β) (es : Entries κ α) : keys (mapValues f es) = keys es := by
  rw [keys, keys, mapValues, List.map_map]
  rfl

variable [DecidableEq κ]

theorem find?_mapValues (f : α → β) (es : Entries κ α) (k : κ) :
    find? (mapValues f es) k = (find? es k).map f := by
  induction es with
  | nil => rfl
  | cons e rest ih =>
    have hcons : mapValues f (e :: rest) = (e.1, f e.2) :: mapValues f rest := rfl
    by_cases hk : e.1 = k
    · rw [hcons, find?, if_pos hk, find?, if_pos hk, Option.map_some]
    · rw [hcons, find?, if_neg hk, find?, if_neg hk, ih]

theorem has_mapValues (f : α → β) (es : Entries κ α) (k : κ) :
    has (mapValues f es) k = has es k := by
  rw [has, has, find?_mapValues, Option.isSome_map]

theorem put_mapValues (f : α → β) (es : Entries κ α) (k : κ) (a : α) :
    put (mapValues f es) k (f a) = mapValues f (put es k a) := by
  induction es with
  | nil => rfl
  | cons e rest ih =>
    have hcons : mapValues f (e :: rest) = (e.1, f e.2) :: mapValues f rest := rfl
    by_cases hk : e.1 = k
    · rw [hcons, put, if_pos hk, put, if_pos hk]
      rfl
    · rw [hcons, put, if_neg hk, put, if_neg hk, ih]
      rfl

theorem drop_mapValues (f : α → β) (es : Entries κ α) (k : κ) :
    drop (mapValues f es) k = mapValues f (drop es k) := by
  induction es with
  | nil => rfl
  | cons e rest ih =>
    have hcons : mapValues f (e :: rest) = (e.1, f e.2) :: mapValues f rest := rfl
    by_cases hk : e.1 = k
    · rw [hcons, drop, if_pos hk, drop, if_pos hk, ih]
    · rw [hcons, drop, if_neg hk, drop, if_neg hk, ih]
      rfl

theorem find?_put_self (es : Entries κ α) (k : κ) (a : α) : find? (put es k a) k = some a := by
  rw [find?_put, if_pos rfl]

/-! ## Keys that come once -/

/-- A key is listed when something is found under it. -/
theorem mem_keys_iff (es : Entries κ α) (k : κ) : k ∈ keys es ↔ (find? es k).isSome = true := by
  induction es with
  | nil => simp [keys]
  | cons e rest ih =>
    have ih' : k ∈ rest.map Prod.fst ↔ _ := ih
    by_cases hk : e.1 = k
    · simp [keys, find?, hk]
    · simp only [keys, find?, hk, List.map_cons, List.mem_cons, Ne.symm hk, false_or, if_false, ih']

/-- What is found under a key is its entry. -/
theorem mem_of_find? {es : Entries κ α} {k : κ} {a : α} (h : find? es k = some a) : (k, a) ∈ es := by
  induction es with
  | nil => cases h
  | cons e rest ih =>
    rw [find?] at h
    split at h
    · rename_i hk
      obtain rfl := Option.some.inj h
      rw [← hk]
      exact List.mem_cons_self
    · exact List.mem_cons_of_mem _ (ih h)

/-- An entry is found under its key if no other has this key. -/
theorem find?_of_mem {es : Entries κ α} (h : (keys es).Nodup) {k : κ} {a : α} (hmem : (k, a) ∈ es) :
    find? es k = some a := by
  induction es with
  | nil => cases hmem
  | cons e rest ih =>
    obtain ⟨hnew, hrest⟩ := List.nodup_cons.1 (show (e.1 :: keys rest).Nodup from h)
    rcases List.mem_cons.1 hmem with rfl | hlater
    · rw [find?, if_pos rfl]
    · have hne : e.1 ≠ k := fun heq => hnew (heq ▸ List.mem_map.2 ⟨_, hlater, rfl⟩)
      rw [find?, if_neg hne, ih hrest hlater]

theorem put_of_notMem {es : Entries κ α} {k : κ} (h : k ∉ keys es) (a : α) :
    put es k a = es ++ [(k, a)] := by
  induction es with
  | nil => rfl
  | cons e rest ih =>
    have hne : ¬ e.1 = k := fun heq => h (List.mem_cons.2 (.inl heq.symm))
    have hrest : k ∉ keys rest := fun hmem => h (List.mem_cons_of_mem _ hmem)
    rw [put, if_neg hne, ih hrest, List.cons_append]

/-- Taking out what is not there changes nothing. -/
theorem drop_of_has_eq_false {es : Entries κ α} {k : κ} (h : has es k = false) : drop es k = es := by
  induction es with
  | nil => rfl
  | cons e rest ih =>
    rw [has, find?] at h
    split at h
    · cases h
    · rename_i hne
      rw [drop, if_neg hne, ih h]

theorem nodup_keys_put {es : Entries κ α} (h : (keys es).Nodup) (k : κ) (a : α) :
    (keys (put es k a)).Nodup := by
  rw [keys_put]
  split
  · exact h
  · rename_i hk
    rw [List.nodup_append]
    refine ⟨h, List.nodup_singleton k, fun j hj l hl heq => hk ?_⟩
    rw [List.mem_singleton.1 hl] at heq
    rwa [← heq]

theorem nodup_keys_drop {es : Entries κ α} (h : (keys es).Nodup) (k : κ) :
    (keys (drop es k)).Nodup := by
  rw [keys_drop]
  exact h.filter _

theorem nodup_keys_ofPairs (pairs : List (κ × α)) : (keys (ofPairs pairs)).Nodup := by
  induction pairs using List.reverseRecOn with
  | nil => exact List.nodup_nil
  | append_singleton pairs pair ih =>
    rw [ofPairs, List.foldl_append]
    exact nodup_keys_put ih _ _

/-- Pairs with keys that are new, and all different, are put at the end as they are. -/
theorem foldl_put_of_nodup {es pairs : List (κ × α)} (h : ((es ++ pairs).map Prod.fst).Nodup) :
    pairs.foldl (fun es pair => put es pair.1 pair.2) es = es ++ pairs := by
  induction pairs generalizing es with
  | nil => rw [List.foldl_nil, List.append_nil]
  | cons pair pairs ih =>
    have hnew : pair.1 ∉ keys es := by
      intro hmem
      rw [List.map_append, List.nodup_append] at h
      exact h.2.2 _ hmem _ List.mem_cons_self rfl
    rw [List.foldl_cons, put_of_notMem hnew, ih, List.append_assoc, List.singleton_append]
    rwa [List.append_assoc, List.singleton_append]

/-- Pairs of which no two have the same key are entries as they are. -/
theorem ofPairs_of_nodup {pairs : List (κ × α)} (h : (pairs.map Prod.fst).Nodup) :
    ofPairs pairs = pairs :=
  foldl_put_of_nodup (show (([] ++ pairs).map Prod.fst).Nodup from h)

/-- Taking a key out leaves the entries of the others. -/
theorem filter_key_ne (es : Entries κ α) (k : κ) : (es.filter fun e => e.1 ≠ k) = drop es k := by
  induction es with
  | nil => rfl
  | cons e rest ih =>
    rw [drop, List.filter_cons, ih]
    by_cases hk : e.1 = k
    · rw [if_pos hk, if_neg (by simp [hk])]
    · rw [if_neg hk, if_pos (decide_eq_true hk)]

/-! ## Values of a kind -/

theorem forall_mem_put {P : α → Prop} {es : Entries κ α} (h : ∀ e ∈ es, P e.2) (k : κ) {a : α}
    (ha : P a) : ∀ e ∈ put es k a, P e.2 := by
  induction es with
  | nil => exact List.forall_mem_singleton.2 ha
  | cons e rest ih =>
    obtain ⟨he, hrest⟩ := List.forall_mem_cons.1 h
    rw [put]
    split
    · exact List.forall_mem_cons.2 ⟨ha, hrest⟩
    · exact List.forall_mem_cons.2 ⟨he, ih hrest⟩

theorem forall_mem_drop {P : α → Prop} {es : Entries κ α} (h : ∀ e ∈ es, P e.2) (k : κ) :
    ∀ e ∈ drop es k, P e.2 := by
  induction es with
  | nil => exact h
  | cons e rest ih =>
    obtain ⟨he, hrest⟩ := List.forall_mem_cons.1 h
    rw [drop]
    split
    · exact ih hrest
    · exact List.forall_mem_cons.2 ⟨he, ih hrest⟩

theorem forall_mem_ofPairs {P : α → Prop} {pairs : List (κ × α)} (h : ∀ e ∈ pairs, P e.2) :
    ∀ e ∈ ofPairs pairs, P e.2 := by
  induction pairs using List.reverseRecOn with
  | nil => exact List.forall_mem_nil _
  | append_singleton pairs pair ih =>
    obtain ⟨hpairs, hpair⟩ := List.forall_mem_append.1 h
    rw [ofPairs, List.foldl_append]
    exact forall_mem_put (ih hpairs) _ (hpair pair (List.mem_singleton_self pair))

end FileTags.Entries
