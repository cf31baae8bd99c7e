import FileTags.Proofs.Toml.Representable
import Mathlib.Data.List.Perm.Subperm
/-! # Values that are alike

A document is written with the plain values of a table before its tables, so reading may bring the entries
of a table in another order.  Nothing else changes in values that are alike (`Alike`): each part has the same
kind and value.  What comparisons take as the same as itself they take as the same as what is alike
(`Alike.same`), which leaves out only what is no number.
-/
namespace FileTags.Toml

/-- **Two values are alike**: atomic ones are one value, lists are alike item by item, and tables entry by
entry in any order. -/
inductive Alike : Value → Value → Prop where
  | atomic {v : Value} (h : v.isAtomic = true) : Alike v v
  | list {vs ws : List Value} (length : vs.length = ws.length) (items : ∀ p ∈ vs.zip ws, Alike p.1 p.2) :
      Alike (.list vs) (.list ws)
  | table {es fs : Fields} (length : es.length = fs.length)
      (found : ∀ e ∈ es, Entries.has fs e.1 = true)
      (values : ∀ e ∈ es, ∀ w, Entries.find? fs e.1 = some w → Alike e.2 w) :
      Alike (.table es) (.table fs)

variable {v w : Value} {vs ws : List Value} {es fs : Fields} {k : String}

theorem zip_self (vs : List Value) : vs.zip vs = vs.map fun v => (v, v) := by
  rw [List.zip_eq_zipWith, List.zipWith_self]

namespace Alike

/-- Tables are alike if they have as many entries, and each of the one is found in the other. -/
theorem of_entries (length : es.length = fs.length)
    (h : ∀ e ∈ es, ∃ w, Entries.find? fs e.1 = some w ∧ Alike e.2 w) : Alike (.table es) (.table fs) := by
  refine .table length (fun e he => ?_) fun e he w hw => ?_
  · obtain ⟨_, hfind, -⟩ := h e he
    rw [Entries.has, hfind, Option.isSome_some]
  · obtain ⟨_, hfind, hone⟩ := h e he
    obtain rfl := Option.some.inj (hfind.symm.trans hw)
    exact hone

theorem refl (h : Representable v) : Alike v v := by
  induction h with
  | bool | int | float | text | moment => exact .atomic rfl
  | list _ ih =>
    refine .list rfl ?_
    rw [zip_self]
    exact List.forall_mem_map.2 ih
  | table distinct _ ih =>
    exact of_entries rfl fun e he => ⟨e.2, Entries.find?_of_mem distinct he, ih e he⟩

theorem eq_of_isAtomic (h : Alike v w) (hv : v.isAtomic = true) : w = v := by
  cases h with
  | atomic => rfl
  | list | table => cases hv

/-- What is alike a table is a table with as many entries, among which each of its entries is found. -/
theorem exists_table (h : Alike (.table es) w) :
    ∃ fs, w = .table fs ∧ es.length = fs.length ∧
      ∀ e ∈ es, ∃ v, Entries.find? fs e.1 = some v ∧ Alike e.2 v := by
  cases h with
  | atomic hatomic => cases hatomic
  | table length found values =>
    refine ⟨_, rfl, length, fun e he => ?_⟩
    obtain ⟨v, hv⟩ := Option.isSome_iff_exists.1 (found e he)
    exact ⟨v, hv, values e he v hv⟩

theorem exists_entry (h : Alike (.table es) (.table fs)) (he : (k, v) ∈ es) :
    ∃ w, Entries.find? fs k = some w ∧ Alike v w := by
  obtain ⟨_, heq, -, hentries⟩ := h.exists_table
  obtain rfl := Value.table.inj heq
  exact hentries _ he

/-- The keys of tables that are alike are the same, in any order. -/
theorem keys_perm (h : Alike (.table es) (.table fs)) (hdistinct : (Entries.keys es).Nodup) :
    (Entries.keys es).Perm (Entries.keys fs) := by
  obtain ⟨_, heq, hlength, hentries⟩ := h.exists_table
  obtain rfl := Value.table.inj heq
  have hsubset : Entries.keys es ⊆ Entries.keys fs := by
    intro key hkey
    obtain ⟨e, he, rfl⟩ := List.mem_map.1 hkey
    obtain ⟨w, hw, -⟩ := hentries e he
    exact List.mem_map.2 ⟨_, Entries.mem_of_find? hw, rfl⟩
  refine (List.subperm_of_subset hdistinct hsubset).perm_of_length_le ?_
  rw [Entries.keys, Entries.keys, List.length_map, List.length_map]
  exact Nat.le_of_eq hlength.symm

/-- **The first entry of a table and the others**: what is alike the table has them apart. -/
theorem split (hdistinct : (Entries.keys ((k, v) :: es)).Nodup)
    (h : Alike (.table ((k, v) :: es)) (.table fs)) :
    ∃ w, Entries.find? fs k = some w ∧ Alike v w ∧ Alike (.table es) (.table (Entries.drop fs k)) := by
  obtain ⟨hnew, -⟩ := List.nodup_cons.1 (show (k :: Entries.keys es).Nodup from hdistinct)
  have hne : ∀ e ∈ es, k ≠ e.1 := fun e he heq => hnew (List.mem_map.2 ⟨e, he, heq.symm⟩)
  have hrest : ∀ e ∈ es, ∃ w, Entries.find? (Entries.drop fs k) e.1 = some w ∧ Alike e.2 w := by
    intro e he
    rw [Entries.find?_drop, if_neg (hne e he)]
    exact h.exists_entry (List.mem_cons_of_mem _ he)
  have hlength : es.length = (Entries.drop fs k).length := by
    -- The keys are the same in some order and all different, so the key takes out one entry and no more.
    have hperm := (h.keys_perm hdistinct).filter fun key => decide (key ≠ k)
    have hkeys : (Entries.keys ((k, v) :: es)).filter (fun key => decide (key ≠ k)) = Entries.keys es := by
      show (k :: Entries.keys es).filter _ = _
      rw [List.filter_cons_of_neg (by simp), List.filter_eq_self]
      exact fun key hkey => decide_eq_true fun heq => hnew (heq ▸ hkey)
    rw [hkeys, ← Entries.keys_drop] at hperm
    have hcount := hperm.length_eq
    rwa [Entries.keys, Entries.keys, List.length_map, List.length_map] at hcount
  obtain ⟨w, hw, halike⟩ := h.exists_entry List.mem_cons_self
  exact ⟨w, hw, halike, of_entries hlength hrest⟩

end Alike

/-! ## Comparing -/

theorem sameItems_iff :
    Value.sameItems vs ws = true ↔
      vs.length = ws.length ∧ ∀ p ∈ vs.zip ws, Value.same p.1 p.2 = true := by
  induction vs generalizing ws with
  | nil => cases ws <;> simp [Value.sameItems]
  | cons v vs ih =>
    cases ws with
    | nil => simp [Value.sameItems]
    | cons w ws =>
      rw [Value.sameItems, Bool.and_eq_true, ih, List.zip_cons_cons, List.forall_mem_cons,
        List.length_cons, List.length_cons, Nat.succ_inj]
      exact and_left_comm

theorem sameEntries_iff :
    Value.sameEntries es fs = true ↔
      ∀ e ∈ es, ∃ w, Entries.find? fs e.1 = some w ∧ Value.same e.2 w = true := by
  induction es with
  | nil => exact ⟨fun _ => nofun, fun _ => rfl⟩
  | cons e es ih =>
    obtain ⟨k, v⟩ := e
    rw [Value.sameEntries, Bool.and_eq_true, ih, List.forall_mem_cons]
    refine and_congr_left fun _ => ?_
    cases hw : Entries.find? fs k with
    | none => exact ⟨nofun, nofun⟩
    | some w => exact ⟨fun h => ⟨w, rfl, h⟩, fun ⟨_, heq, h⟩ => Option.some.inj heq ▸ h⟩

/-- **What is the same as itself is the same as what is alike.** -/
theorem Alike.same (h : Alike v w) (hv : Representable v) (hself : Value.same v v = true) :
    Value.same v w = true := by
  induction h with
  | atomic => exact hself
  | list length _ ih =>
    rw [Value.same, sameItems_iff] at hself ⊢
    rw [zip_self, List.forall_mem_map] at hself
    refine ⟨length, fun p hp => ?_⟩
    have hmem := (List.of_mem_zip hp).1
    exact ih p hp (hv.items _ hmem) (hself.2 _ hmem)
  | table length found values ih =>
    rw [Value.same, Bool.and_eq_true, sameEntries_iff] at hself ⊢
    refine ⟨beq_iff_eq.2 length, fun e he => ?_⟩
    obtain ⟨w, hw⟩ := Option.isSome_iff_exists.1 (found e he)
    obtain ⟨u, hu, hsame⟩ := hself.2 e he
    obtain rfl := Option.some.inj ((Entries.find?_of_mem hv.distinct he).symm.trans hu)
    exact ⟨w, hw, ih e he w hw (hv.values e he) hsame⟩

end FileTags.Toml
