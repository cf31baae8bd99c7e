/-! # Entries

Keyed entries in the order in which their keys were first put in.  Putting a new key appends an
entry; putting a key that is there changes its value and leaves its place; taking a key out and
putting it back moves it to the end.  Everything that keeps records under keys (the memory of a
store, an object of a data file, the files of a disk) is such a list.
-/
namespace FileTags

/-- A list of keys with their values. -/
abbrev Entries (κ α : Type) := List (κ × α)

namespace Entries

variable {κ α : Type} [DecidableEq κ]

/-- The value under a key. -/
def find? (es : Entries κ α) (k : κ) : Option α :=
  match es with
  | [] => none
  | (key, a) :: rest => if key = k then some a else find? rest k

/-- Whether a key has an entry. -/
def has (es : Entries κ α) (k : κ) : Bool := (find? es k).isSome

/-- Puts a value under a key: in place if the key has an entry, else at the end. -/
def put (es : Entries κ α) (k : κ) (a : α) : Entries κ α :=
  match es with
  | [] => [(k, a)]
  | (key, b) :: rest => if key = k then (key, a) :: rest else (key, b) :: put rest k a

/-- Takes the entry of a key out. -/
def drop (es : Entries κ α) (k : κ) : Entries κ α :=
  match es with
  | [] => []
  | (key, b) :: rest => if key = k then drop rest k else (key, b) :: drop rest k

/-- The keys, in the order of their entries. -/
def keys (es : Entries κ α) : List κ := es.map Prod.fst

/-- The entries of a list of pairs, of which the later wins and the earlier gives the place. -/
def ofPairs (pairs : List (κ × α)) : Entries κ α :=
  pairs.foldl (fun es pair => put es pair.1 pair.2) []

@[simp] theorem find?_nil (k : κ) : find? ([] : Entries κ α) k = none := rfl

theorem find?_put (es : Entries κ α) (k : κ) (a : α) (j : κ) :
    find? (put es k a) j = if k = j then some a else find? es j := by
  induction es with
  | nil => simp [put, find?]
  | cons e rest ih => by_cases hk : e.1 = k <;> by_cases hj : e.1 = j <;> grind [put, find?]

theorem find?_drop (es : Entries κ α) (k j : κ) :
    find? (drop es k) j = if k = j then none else find? es j := by
  induction es with
  | nil => simp [drop, find?]
  | cons e rest ih => by_cases hk : e.1 = k <;> by_cases hj : e.1 = j <;> grind [drop, find?]

theorem keys_put (es : Entries κ α) (k : κ) (a : α) :
    keys (put es k a) = if k ∈ keys es then keys es else keys es ++ [k] := by
  induction es with
  | nil => simp [put, keys]
  | cons e rest ih =>
    obtain ⟨key, b⟩ := e
    by_cases hk : key = k
    · simp [put, keys, hk]
    · have ih' : List.map Prod.fst (put rest k a) =
          if k ∈ List.map Prod.fst rest then List.map Prod.fst rest
          else List.map Prod.fst rest ++ [k] := ih
      have hk' : ¬ k = key := fun h => hk h.symm
      by_cases hm : k ∈ List.map Prod.fst rest
      · simp only [keys, put, hk, if_false, List.map_cons, ih', hm, if_true, List.mem_cons, or_true]
      · simp only [keys, put, hk, hk', if_false, List.map_cons, ih', hm, List.mem_cons, or_self,
          List.cons_append]

theorem keys_drop (es : Entries κ α) (k : κ) :
    keys (drop es k) = (keys es).filter (· ≠ k) := by
  induction es with
  | nil => rfl
  | cons e rest ih =>
    obtain ⟨key, b⟩ := e
    have ih' : List.map Prod.fst (drop rest k) = (List.map Prod.fst rest).filter (· ≠ k) := ih
    by_cases hk : key = k <;> simp_all [drop, keys]

end Entries

end FileTags
