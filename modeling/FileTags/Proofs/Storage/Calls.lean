import FileTags.Proofs.Storage.Contents
/-! # Calls of a storage

What a storage answers to a run of calls, from the outside: the calls come one after another, and
between them the storage may be closed and opened again (`Step`).  What it should answer is said
twice.

* By entries: each call works on a list of entries (`Call.reply`, `Call.next`).  A storage
  `KeepsEntries` if its states stand for such lists, and then its answers to a run are those of the
  list, whatever was opened again in between (`KeepsEntries.answers_eq`).
* By history: what a key holds is what was written last, unless it was deleted since (`held`), and
  its place is where it was first written since (`born`).  This leaves no choice of the answers
  (`Follows.unique`), and the list of entries gives them (`follows_replies`).

The entries are what the storages have in common; the history is what users of a storage know.
-/
namespace FileTags.Storage

variable {σ : Type} {s : Storage σ} {openAgain : Action σ Unit}

/-- What is asked of a storage. -/
inductive Call where
  | read (key : String)
  | write (key : String) (names : List String)
  | delete (key : String)
  | keys
  deriving DecidableEq, Repr

/-- What a storage answers: the record under a key, that it wrote, whether there was a record, or
the keys. -/
inductive Reply where
  | found (names? : Option Record)
  | written
  | deleted (wasThere : Bool)
  | listed (keys : List String)
  deriving Repr

/-- A call, answered by a storage. -/
def Call.on (s : Storage σ) : Call → Action σ Reply
  | .read k => do return .found (← s.read k)
  | .write k names => do
    s.write k (Record.ofNames names)
    return .written
  | .delete k => do return .deleted (← s.delete k)
  | .keys => do return .listed (← s.keys)

/-- A call, or closing the storage and opening it again. -/
inductive Step where
  | call (c : Call)
  | reopen
  deriving DecidableEq, Repr

/-- The calls among some steps. -/
def Step.calls : List Step → List Call
  | [] => []
  | .call c :: steps => c :: calls steps
  | .reopen :: steps => calls steps

/-- Closes a storage and opens it again. -/
def reopening (s : Storage σ) (openAgain : Action σ Unit) : Action σ Unit := do
  let _ ← s.close
  openAgain

/-- The answers to the calls among some steps.  Opening again gives none, unless it fails. -/
def answers (s : Storage σ) (openAgain : Action σ Unit) : List Step → σ →
    List (Except Failure Reply)
  | [], _ => []
  | .call c :: steps, t =>
    let out := (c.on s).runFrom t
    out.1 :: answers s openAgain steps out.2
  | .reopen :: steps, t =>
    match (reopening s openAgain).runFrom t with
    | (.ok (), t) => answers s openAgain steps t
    | (.error f, t) => .error f :: answers s openAgain steps t

/-! ## Answers by entries -/

/-- What the entries answer to a call. -/
def Call.reply (es : Entries String (List String)) : Call → Reply
  | .read k => .found ((Entries.find? es k).map Record.ofNames)
  | .write _ _ => .written
  | .delete k => .deleted (Entries.has es k)
  | .keys => .listed (Entries.keys es)

/-- The entries after a call. -/
def Call.next (es : Entries String (List String)) : Call → Entries String (List String)
  | .write k names => Entries.put es k names
  | .delete k => Entries.drop es k
  | _ => es

/-- What the entries answer to calls one after another. -/
def replies (es : Entries String (List String)) : List Call → List Reply
  | [] => []
  | c :: calls => c.reply es :: replies (c.next es) calls

/-- The reply of a storage that shows its keys in another way. -/
def Reply.shown (order : List String → List String) : Reply → Reply
  | .listed ks => .listed (order ks)
  | r => r

/-- **A storage keeps entries.**  `I t es` says that the state `t` stands for the entries `es`; the
keys are shown in some way.  Each action answers as the entries do and leaves a state that stands
for the entries after it; closing and opening again leaves the entries as they are. -/
structure KeepsEntries (s : Storage σ) (openAgain : Action σ Unit)
    (order : List String → List String) (I : σ → Entries String (List String) → Prop) : Prop where
  read : ∀ {t es} (k : String), I t es →
    (s.read k).Ends t (.ok ((Entries.find? es k).map Record.ofNames)) (I · es)
  write : ∀ {t es} (k : String) (names : List String), I t es →
    (s.write k (Record.ofNames names)).Ends t (.ok ()) (I · (Entries.put es k names))
  delete : ∀ {t es} (k : String), I t es →
    (s.delete k).Ends t (.ok (Entries.has es k)) (I · (Entries.drop es k))
  keys : ∀ {t es}, I t es → s.keys.Ends t (.ok (order (Entries.keys es))) (I · es)
  reopen : ∀ {t es}, I t es → (reopening s openAgain).Ends t (.ok ()) (I · es)

namespace KeepsEntries

variable {order : List String → List String} {I : σ → Entries String (List String) → Prop}

/-- One call is answered as the entries answer it. -/
theorem call_ends (h : KeepsEntries s openAgain order I) {t : σ} {es : Entries String (List String)}
    (hi : I t es) (c : Call) :
    (c.on s).Ends t (.ok ((c.reply es).shown order)) (I · (c.next es)) := by
  cases c with
  | read k => exact (h.read k hi).bind fun t' hi' => Action.ends_pure hi'
  | write k names => exact (h.write k names hi).bind fun t' hi' => Action.ends_pure hi'
  | delete k => exact (h.delete k hi).bind fun t' hi' => Action.ends_pure hi'
  | keys => exact (h.keys hi).bind fun t' hi' => Action.ends_pure hi'

/-- **The answers to any steps are those of the entries**, and nothing fails. -/
theorem answers_eq (h : KeepsEntries s openAgain order I) (steps : List Step) {t : σ}
    {es : Entries String (List String)} (hi : I t es) :
    answers s openAgain steps t =
      (replies es (Step.calls steps)).map fun r => .ok (r.shown order) := by
  induction steps generalizing t es with
  | nil => rfl
  | cons step steps ih =>
    cases step with
    | call c =>
      obtain ⟨t', hrun, hi'⟩ := Action.ends_iff.1 (h.call_ends hi c)
      rw [answers, hrun]
      exact congrArg _ (ih hi')
    | reopen =>
      obtain ⟨t', hrun, hi'⟩ := Action.ends_iff.1 (h.reopen hi)
      rw [answers, hrun]
      exact ih hi'

/-- **A storage that keeps entries acts as a map**, however it lists the keys, so the operations of
a store do on it what they do on any map. -/
theorem actsAsMap (h : KeepsEntries s openAgain order I) (horder : ∀ ks, (order ks).Perm ks) :
    s.ActsAsMap fun t m =>
      ∃ es, I t es ∧ (Entries.keys es).Nodup ∧ ∀ k, Entries.find? es k = m k where
  read {t m} k := by
    rintro ⟨es, hi, hnodup, hfind⟩
    rw [← hfind]
    exact (h.read k hi).imp fun t' hi' => ⟨es, hi', hnodup, hfind⟩
  write {t m} k names := by
    rintro ⟨es, hi, hnodup, hfind⟩
    refine (h.write k names hi).imp fun t' hi' => ⟨_, hi', Entries.nodup_keys_put hnodup k names, ?_⟩
    intro j
    rw [Entries.find?_put, Function.update_apply, hfind]
    exact if_congr eq_comm rfl rfl
  delete {t m} k := by
    rintro ⟨es, hi, hnodup, hfind⟩
    rw [← hfind]
    refine (h.delete k hi).imp fun t' hi' => ⟨_, hi', Entries.nodup_keys_drop hnodup k, ?_⟩
    intro j
    rw [Entries.find?_drop, Function.update_apply, hfind]
    exact if_congr eq_comm rfl rfl
  keys {t m} := by
    rintro ⟨es, hi, hnodup, hfind⟩
    refine ⟨order (Entries.keys es), ⟨(horder _).nodup_iff.2 hnodup, fun k => ?_⟩,
      (h.keys hi).imp fun t' hi' => ⟨es, hi', hnodup, hfind⟩⟩
    rw [(horder _).mem_iff, Entries.mem_keys_iff, hfind]

end KeepsEntries

/-! ## Answers by history -/

/-- What a key holds after some calls, the last one first: what was written last, unless it was
deleted since. -/
def held : List Call → String → Option (List String)
  | [], _ => none
  | .write j names :: past, k => if j = k then some names else held past k
  | .delete j :: past, k => if j = k then none else held past k
  | _ :: past, k => held past k

/-- When a key was first written since it was last deleted, counted in calls from the start. -/
def born : List Call → String → Option Nat
  | [], _ => none
  | .write j _ :: past, k => if j = k then some ((born past k).getD past.length) else born past k
  | .delete j :: past, k => if j = k then none else born past k
  | _ :: past, k => born past k

/-- Of two keys that hold something, the one was written before the other. -/
def Earlier (past : List Call) (j k : String) : Prop :=
  ∃ m n, born past j = some m ∧ born past k = some n ∧ m < n

/-- **The answer that the calls before demand**: a read finds what is held, a deletion tells whether
anything was, and the keys are those that hold something, each once, in the order in which they were
first written. -/
def Demands (past : List Call) : Call → Reply → Prop
  | .read k, r => r = .found ((held past k).map Record.ofNames)
  | .write _ _, r => r = .written
  | .delete k, r => r = .deleted (held past k).isSome
  | .keys, r => ∃ ks, r = .listed ks ∧ (∀ k, k ∈ ks ↔ (held past k).isSome = true) ∧
      ks.Pairwise (Earlier past)

/-- Every answer of a run is the one that the calls before it demand. -/
inductive Follows : List Call → List Call → List Reply → Prop
  | nil (past : List Call) : Follows past [] []
  | cons {past : List Call} {c : Call} {calls : List Call} {r : Reply} {rs : List Reply} :
    Demands past c r → Follows (c :: past) calls rs → Follows past (c :: calls) (r :: rs)

theorem isSome_born (past : List Call) (k : String) :
    (born past k).isSome = (held past k).isSome := by
  induction past with
  | nil => rfl
  | cons c past ih =>
    cases c with
    | read j => exact ih
    | keys => exact ih
    | write j names =>
      rw [born, held]
      split
      · rfl
      · exact ih
    | delete j =>
      rw [born, held]
      split
      · rfl
      · exact ih

theorem born_lt {past : List Call} {k : String} {n : Nat} (h : born past k = some n) :
    n < past.length := by
  induction past generalizing n with
  | nil => cases h
  | cons c past ih =>
    rw [List.length_cons]
    cases c with
    | read j => exact Nat.lt_succ_of_lt (ih h)
    | keys => exact Nat.lt_succ_of_lt (ih h)
    | write j names =>
      rw [born] at h
      split at h
      · obtain rfl := Option.some.inj h
        cases hb : born past k with
        | none => exact Nat.lt_succ_self _
        | some m => exact Nat.lt_succ_of_lt (ih hb)
      · exact Nat.lt_succ_of_lt (ih h)
    | delete j =>
      rw [born] at h
      split at h
      · cases h
      · exact Nat.lt_succ_of_lt (ih h)

section Written
variable {past : List Call} {k : String} (names : List String)

theorem born_write_of_ne {j : String} (h : k ≠ j) :
    born (.write k names :: past) j = born past j := if_neg h

/-- A key that holds something keeps its place when it is written again. -/
theorem born_write_again {n : Nat} (h : born past k = some n) (j : String) :
    born (.write k names :: past) j = born past j := by
  by_cases hj : k = j
  · rw [← hj, born, if_pos rfl, h, Option.getD_some]
  · exact born_write_of_ne names hj

theorem born_write_new (h : born past k = none) :
    born (.write k names :: past) k = some past.length := by
  rw [born, if_pos rfl, h, Option.getD_none]

end Written

/-- Of two keys whose places are as they were, the one still comes before the other. -/
theorem Earlier.of_born_eq {past later : List Call} {i j : String} (h : Earlier past i j)
    (hi : born later i = born past i) (hj : born later j = born past j) : Earlier later i j := by
  obtain ⟨m, n, hm, hn, hlt⟩ := h
  exact ⟨m, n, hi.trans hm, hj.trans hn, hlt⟩

theorem not_earlier {past : List Call} {j k : String} (h : Earlier past j k) :
    ¬ Earlier past k j := by
  rintro ⟨m, n, hm, hn, hlt⟩
  obtain ⟨m', n', hm', hn', hlt'⟩ := h
  obtain rfl : m = n' := Option.some.inj (hm.symm.trans hn')
  obtain rfl : n = m' := Option.some.inj (hn.symm.trans hm')
  exact Nat.lt_asymm hlt hlt'

/-- No key is written before itself. -/
theorem nodup_of_earlier {past : List Call} {ks : List String} (h : ks.Pairwise (Earlier past)) :
    ks.Nodup := by
  refine h.imp ?_
  rintro j k hjk rfl
  exact not_earlier hjk hjk

/-- The calls before leave no choice of the answer. -/
theorem Demands.unique {past : List Call} {c : Call} {r r' : Reply} (h : Demands past c r)
    (h' : Demands past c r') : r = r' := by
  cases c with
  | read k => exact h.trans h'.symm
  | write k names => exact h.trans h'.symm
  | delete k => exact h.trans h'.symm
  | keys =>
    obtain ⟨ks, rfl, hmem, hsorted⟩ := h
    obtain ⟨ks', rfl, hmem', hsorted'⟩ := h'
    have hperm : ks.Perm ks' :=
      (List.perm_ext_iff_of_nodup (nodup_of_earlier hsorted) (nodup_of_earlier hsorted')).2
        fun k => (hmem k).trans (hmem' k).symm
    have heq : ks = ks' :=
      hperm.eq_of_pairwise (fun j k _ _ hjk hkj => absurd hkj (not_earlier hjk)) hsorted hsorted'
    rw [heq]

theorem Follows.unique {past calls : List Call} {rs rs' : List Reply} (h : Follows past calls rs)
    (h' : Follows past calls rs') : rs = rs' := by
  induction h generalizing rs' with
  | nil past =>
    cases h'
    rfl
  | cons hdemands _ ih =>
    cases h' with
    | cons hdemands' hrest => rw [hdemands.unique hdemands', ih hrest]

/-- The entries are what the calls have left: each key with what it holds, in the order in which
they were first written. -/
structure Remembers (past : List Call) (es : Entries String (List String)) : Prop where
  find : ∀ k, Entries.find? es k = held past k
  sorted : (Entries.keys es).Pairwise (Earlier past)

theorem remembers_nil : Remembers [] [] := ⟨fun _ => rfl, .nil⟩

namespace Remembers

variable {past : List Call} {es : Entries String (List String)}

theorem mem_keys (h : Remembers past es) (k : String) :
    k ∈ Entries.keys es ↔ (held past k).isSome = true := by
  rw [Entries.mem_keys_iff, h.find]

theorem exists_born (h : Remembers past es) {k : String} (hk : k ∈ Entries.keys es) :
    ∃ n, born past k = some n := by
  have hsome := (h.mem_keys k).1 hk
  rw [← isSome_born] at hsome
  exact Option.isSome_iff_exists.1 hsome

theorem born_eq_none (h : Remembers past es) {k : String} (hk : k ∉ Entries.keys es) :
    born past k = none := by
  refine Option.not_isSome_iff_eq_none.1 fun hsome => hk ((h.mem_keys k).2 ?_)
  rwa [← isSome_born]

/-- A key that is written again keeps its place, and a new one comes last. -/
theorem write (h : Remembers past es) (k : String) (names : List String) :
    Remembers (.write k names :: past) (Entries.put es k names) where
  find j := by rw [Entries.find?_put, held, h.find]
  sorted := by
    rw [Entries.keys_put]
    split
    · rename_i hk
      obtain ⟨n, hn⟩ := h.exists_born hk
      exact h.sorted.imp fun hij =>
        hij.of_born_eq (born_write_again names hn _) (born_write_again names hn _)
    · rename_i hk
      have hother : ∀ j ∈ Entries.keys es, born (.write k names :: past) j = born past j := by
        intro j hj
        refine born_write_of_ne names ?_
        rintro rfl
        exact hk hj
      rw [List.pairwise_append]
      refine ⟨h.sorted.imp_of_mem fun hi hj hij => hij.of_born_eq (hother _ hi) (hother _ hj),
        List.pairwise_singleton _ _, ?_⟩
      intro j hj l hl
      rw [List.mem_singleton.1 hl]
      obtain ⟨n, hn⟩ := h.exists_born hj
      exact ⟨n, past.length, (hother j hj).trans hn, born_write_new names (h.born_eq_none hk),
        born_lt hn⟩

/-- The keys that are left keep their order. -/
theorem delete (h : Remembers past es) (k : String) :
    Remembers (.delete k :: past) (Entries.drop es k) where
  find j := by rw [Entries.find?_drop, held, h.find]
  sorted := by
    have hother : ∀ j ∈ (Entries.keys es).filter (· ≠ k),
        born (.delete k :: past) j = born past j := by
      intro j hj
      have hne : j ≠ k := of_decide_eq_true (List.mem_filter.1 hj).2
      exact if_neg hne.symm
    rw [Entries.keys_drop]
    exact (h.sorted.filter _).imp_of_mem fun hi hj hij =>
      hij.of_born_eq (hother _ hi) (hother _ hj)

theorem next (h : Remembers past es) (c : Call) : Remembers (c :: past) (c.next es) := by
  cases c with
  | read k => exact ⟨h.find, h.sorted⟩
  | write k names => exact h.write k names
  | delete k => exact h.delete k
  | keys => exact ⟨h.find, h.sorted⟩

theorem demands (h : Remembers past es) (c : Call) : Demands past c (c.reply es) := by
  cases c with
  | read k =>
    show Reply.found _ = .found _
    rw [h.find]
  | write k names => rfl
  | delete k =>
    show Reply.deleted _ = .deleted _
    rw [Entries.has, h.find]
  | keys => exact ⟨Entries.keys es, rfl, h.mem_keys, h.sorted⟩

end Remembers

/-- **The entries answer every run as the calls before demand.** -/
theorem follows_replies {past : List Call} {es : Entries String (List String)}
    (h : Remembers past es) (calls : List Call) : Follows past calls (replies es calls) := by
  induction calls generalizing past es with
  | nil => exact .nil past
  | cons c calls ih => exact .cons (h.demands c) (ih (h.next c))

end FileTags.Storage
