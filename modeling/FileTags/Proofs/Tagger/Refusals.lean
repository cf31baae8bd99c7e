import FileTags.Proofs.Identity
import FileTags.Proofs.Store.Returning
import FileTags.Tagger
import Mathlib
/-! # Changes that are refused

A call that is refused should have changed nothing.  Over a storage that never fails, nearly all
calls of the tagger see to that: identities are normalized, collections looked into and tags checked
before the first write, and moving and dropping tags is never refused once it has begun.

Two refusals come too late (`Change.Late`).  Tagging and untagging end by reading the file back, for
which the identity is normalized once more; that refuses an identity that has become too long when the
path was written as a URI (`tag_overlong`).  And tags that are to be taken away are put in order for
the log after they have been taken away; that refuses whatever is no text.  `unchanged_unless_late`
says that there are no others.

All that is asked of the storage is that it never fails (`NeverFails`); records may hold any values to
begin with.
-/
namespace FileTags

open FileTags.Action
open Record (ofNames)

namespace Store

open FileTags.Storage

variable {σ γ : Type} {s : Storage σ} {R : σ → γ → Prop} {find : γ → String → Option Record}
  {w : World σ} {c : γ}

/-! ## Refusals in time -/

/-- A call that is refused leaves the contents alone, unless the refusal is a late one. -/
def Unharmed {α : Type} (R : σ → γ → Prop) (c : γ) (Late : Failure → Prop)
    (out : Except Failure α × World σ) : Prop :=
  ∀ f, out.1 = .error f → R out.2.state c ∨ Late f

section Unharmed
variable {α β : Type} {Late : Failure → Prop} {act : Action (World σ) α}
  {next : α → Action (World σ) β}

theorem Unharmed.imp {Late' : Failure → Prop} {out : Except Failure α × World σ}
    (h : Unharmed R c Late out) (hl : ∀ f, Late f → Late' f) : Unharmed R c Late' out :=
  fun f hf => (h f hf).imp_right (hl f)

theorem unharmed_pure (a : α) :
    Unharmed R c Late ((pure a : Action (World σ) α).runFrom w) := by
  intro f hf
  cases hf

theorem unharmed_of_answer {a : α} {Q : World σ → Prop} (h : act.Ends w (.ok a) Q) :
    Unharmed R c Late (act.runFrom w) := by
  intro f hf
  cases h.1.symm.trans hf

theorem unharmed_of_refusal {f : Failure} (h : act.Ends w (.error f) fun w' => R w'.state c) :
    Unharmed R c Late (act.runFrom w) := fun _ _ => .inl h.2

theorem unharmed_ofExcept_bind {r : Except Failure α} (hw : R w.state c)
    (hn : ∀ a, r = .ok a → Unharmed R c Late ((next a).runFrom w)) :
    Unharmed R c Late ((Action.ofExcept r >>= next).runFrom w) := by
  cases r with
  | error f => exact fun _ _ => .inl hw
  | ok a => exact hn a rfl

theorem unharmed_bind (h : act.Keeps (fun w => R w.state c) fun _ => True) (hw : R w.state c)
    (hn : ∀ a w', R w'.state c → Unharmed R c Late ((next a).runFrom w')) :
    Unharmed R c Late ((act >>= next).runFrom w) := by
  obtain ⟨hw', -⟩ := h w hw
  rw [runFrom_bind]
  rcases hrun : act.runFrom w with ⟨f | a, w'⟩
  · rw [hrun] at hw'
    exact fun _ _ => .inl hw'
  · rw [hrun] at hw'
    exact hn a w' hw'

/-- What is answered with makes no difference. -/
theorem Unharmed.map {g : α → β} (h : Unharmed R c Late (act.runFrom w)) :
    Unharmed R c Late ((act >>= fun a => pure (g a)).runFrom w) := by
  rw [runFrom_bind]
  rcases hrun : act.runFrom w with ⟨f | a, w'⟩
  · rw [hrun] at h
    intro f' hf
    cases hf
    exact h f rfl
  · exact unharmed_pure (g a)

end Unharmed

theorem rename_unharmed (hs : s.NeverFails R find) (old new : String) (hw : R w.state c)
    {Late : Failure → Prop} : Unharmed R c Late ((rename s old new).runFrom w) := by
  rw [rename]
  split
  · exact unharmed_pure false
  · refine unharmed_bind (get_holding hs old) hw fun tags w₁ hw₁ => ?_
    split
    · exact unharmed_pure false
    · rcases move_answers hs old new tags hw₁ with ⟨b, hmove⟩ | hmove
      · exact unharmed_of_answer hmove
      · exact fun _ _ => .inl hmove.2

end Store

namespace Tagger

open FileTags.Storage FileTags.Store

variable {σ γ : Type} {R : σ → γ → Prop} {find : γ → String → Option Record} {w : World σ} {c : γ}
  {t : Tagger σ}

/-- The identity that a text stands for is too long to be an identity itself. -/
def Overlong (t : Tagger σ) (id : String) : Prop :=
  ∃ identity, Identity.normalize t.surroundings id = .ok identity ∧
    Identity.maxLength < identity.length

/-- The refusal of an identity that is read back, if it is one that has become too long. -/
def LateIdentity (t : Tagger σ) (id : String) (f : Failure) : Prop :=
  f = .idLength ∧ t.Overlong id

/-- The refusal of tags that cannot be told of, as they are not all texts. -/
def Untold (removed : List Value) (f : Failure) : Prop :=
  f = .wrongKind ∧ ∃ e ∈ removed, e.isText = false

/-- The refusal of tags that were taken away, if they are not all texts. -/
def LateKind (tags : Option Value) (f : Failure) : Prop :=
  ∃ v entries, tags = some v ∧ Tag.collection v = .ok entries ∧ Untold entries f

/-- What an editor can ask of the tagger to change. -/
inductive Change where
  | tag (id : String) (tags : Value) (replace : Bool)
  | untag (id : String) (tags : Option Value)
  | renamed (old new : String)
  | deleted (id : String)

/-- What the tagger can answer such a request with. -/
inductive Answer where
  | file (f : TaggedFile)
  | moved (b : Bool)
  | done

/-- The operation of the tagger that a change asks for. -/
def Change.act (t : Tagger σ) : Change → Action (World σ) Answer
  | .tag id tags replace => return .file (← t.tag id tags replace)
  | .untag id tags => return .file (← t.untag id tags)
  | .renamed old new => return .moved (← t.renamed old new)
  | .deleted id => do
    t.deleted id
    return .done

/-- **The refusals that come too late.** -/
def Change.Late (t : Tagger σ) : Change → Failure → Prop
  | .tag id _ _, f => t.LateIdentity id f
  | .untag id tags, f => t.LateIdentity id f ∨ LateKind tags f
  | _, _ => False

/-- Of tags that are all texts the text for the log can be made. -/
theorem exists_told {removed : List Value} (h : ∀ e ∈ removed, e.isText = true) :
    ∃ sorted text, Value.sort? removed = some sorted ∧ joined sorted = .ok text := by
  have hsorted := Value.sort?_ofNames (removed.filterMap Value.text?)
  rw [Record.ofNames_texts h] at hsorted
  exact ⟨_, _, hsorted, joinTexts_ofNames ", " _⟩

theorem exists_not_text {removed : List Value}
    (h : ∀ sorted text, Value.sort? removed = some sorted → joined sorted ≠ .ok text) :
    ∃ e ∈ removed, e.isText = false := by
  by_contra hno
  have htexts : ∀ e ∈ removed, e.isText = true := by
    intro e he
    by_contra hnot
    exact hno ⟨e, he, Bool.eq_false_iff.2 hnot⟩
  obtain ⟨sorted, text, hsorted, hjoined⟩ := exists_told htexts
  exact h sorted text hsorted hjoined

theorem untold_of_sort? {removed : List Value} (h : Value.sort? removed = none) :
    Untold removed .wrongKind := by
  refine ⟨rfl, exists_not_text fun sorted text hsorted => ?_⟩
  cases h.symm.trans hsorted

theorem untold_of_joined {removed sorted : List Value} {f : Failure}
    (h : Value.sort? removed = some sorted) (hf : joined sorted = .error f) : Untold removed f := by
  have hkind : f = .wrongKind := by
    rw [joined, joinTexts] at hf
    split at hf
    · cases hf
    · exact (Except.error.inj hf).symm
  refine ⟨hkind, exists_not_text fun sorted' text hsorted hjoined => ?_⟩
  obtain rfl : sorted = sorted' := Option.some.inj (h.symm.trans hsorted)
  cases hf.symm.trans hjoined

/-- Taking each tag once leaves out none that is no text. -/
theorem lateKind_of_untold {v : Value} {removed : List Value} {f : Failure}
    (h : (Tag.collection v >>= Tag.dedupe) = .ok removed) (hf : Untold removed f) :
    LateKind (some v) f := by
  obtain ⟨hkind, e, he, hnot⟩ := hf
  obtain ⟨entries, hentries, hdedupe⟩ := Identity.bind_eq_ok h
  have hremoved : removed = Tag.dedupeBy Value.same entries := by
    rw [Tag.dedupe] at hdedupe
    split at hdedupe
    · exact (Except.ok.inj hdedupe).symm
    · cases hdedupe
  rw [hremoved] at he
  exact ⟨v, entries, rfl, hentries, hkind, e, Tag.mem_dedupeBy he, hnot⟩

/-- What reading an identity back that has some names comes to. -/
def readBack (identity : String) (names : List String) : Except Failure TaggedFile :=
  if Identity.maxLength < identity.length then .error .idLength
  else .ok ⟨identity, ofNames names.eraseDups⟩

/-- If all that is left is to read an identity back, a refusal is a late one. -/
theorem unharmed_of_readBack {id identity : String} {names : List String}
    {act : Action (World σ) TaggedFile} {Q : World σ → Prop}
    (hid : Identity.normalize t.surroundings id = .ok identity)
    (h : act.Ends w (readBack identity names) Q) :
    Unharmed R c (t.LateIdentity id) (act.runFrom w) := by
  intro f hf
  rw [h.1, readBack] at hf
  by_cases hlong : Identity.maxLength < identity.length
  · rw [if_pos hlong] at hf
    exact .inr ⟨(Except.error.inj hf).symm, identity, hid, hlong⟩
  · rw [if_neg hlong] at hf
    cases hf

/-- Tags that were set are names, which can be told of: so all that is left is to tell of them and to
read the file back. -/
theorem put_of_set {identity : String} {names : List String} {r : Except Failure TaggedFile}
    {P Q : World σ → Prop}
    (hset : (Store.set t.storage identity (ofNames names)).Ends w (.ok ()) P)
    (hrest : ∀ text w', P w' → Ends (do
      note .info text
      t.get identity) w' r Q) :
    Ends (do
      Store.set t.storage identity (ofNames names)
      let text ← Action.ofExcept (joined (← Action.ofExcept (Tag.dedupe (ofNames names))))
      note .info ("Tagged " ++ identity ++ ": " ++ text)
      t.get identity) w r Q := by
  refine hset.bind fun w₁ hw₁ => ?_
  have hnames : (Action.ofExcept (Tag.dedupe (ofNames names))).Ends w₁
      (.ok (ofNames names.eraseDups)) P := by
    rw [Tag.dedupe_ofNames]
    exact ends_ofExcept _ hw₁
  refine hnames.bind fun w₂ hw₂ => ?_
  have htext : (Action.ofExcept (joined (ofNames names.eraseDups))).Ends w₂
      (.ok (String.intercalate ", " names.eraseDups)) P := by
    rw [joined, joinTexts_ofNames]
    exact ends_ofExcept _ hw₂
  exact htext.bind fun w₃ hw₃ => hrest _ w₃ hw₃

section NeverFails
variable (hs : t.storage.NeverFails R find)
include hs

/-- An identity is read back as it was written, unless it is too long. -/
theorem get_ends {id identity : String} {names : List String}
    (hid : Identity.normalize t.surroundings id = .ok identity)
    (hw : Reads R find identity names w) :
    (t.get identity).Ends w (readBack identity names) (Reads R find identity names) := by
  rw [get, Tagger.identity, Identity.normalize_normalized hid, readBack]
  split
  · exact (ends_ofExcept _ hw).bind_error
  · have hidentity : (Action.ofExcept (.ok identity)).Ends w (.ok identity)
        (Reads R find identity names) := ends_ofExcept _ hw
    exact hidentity.bind fun w₁ hw₁ => (get_names hs hw₁).bind fun w₂ hw₂ => ends_pure hw₂

/-- After a change it is told of, and the file is read back. -/
theorem told_ends {id identity : String} {names : List String}
    (hid : Identity.normalize t.surroundings id = .ok identity) (text : String)
    (hw : Reads R find identity names w) :
    Ends (do
      note .info text
      t.get identity) w (readBack identity names) (Reads R find identity names) := by
  have hnote : (note .info text).Ends w (.ok ()) (Reads R find identity names) := ⟨rfl, hw⟩
  exact hnote.bind fun w₁ hw₁ => get_ends hs hid hw₁

/-- Tags that are accepted are set, and reading them back is all that is left. -/
theorem put_ends {id identity : String} {names : List String}
    (hid : Identity.normalize t.surroundings id = .ok identity)
    (hn : ∀ n ∈ names, Tag.isName n = true) (hw : R w.state c) :
    Ends (do
      Store.set t.storage identity (ofNames names)
      let text ← Action.ofExcept (joined (← Action.ofExcept (Tag.dedupe (ofNames names))))
      note .info ("Tagged " ++ identity ++ ": " ++ text)
      t.get identity) w (readBack identity names.eraseDups)
      (Reads R find identity names.eraseDups) := by
  exact put_of_set (set_names hs identity hn hw) fun text w₁ hw₁ => told_ends hs hid text hw₁

/-- Tags that are refused are refused before they are written. -/
theorem put_unharmed {id identity : String}
    (hid : Identity.normalize t.surroundings id = .ok identity) (entries : List Value)
    (hw : R w.state c) :
    Unharmed R c (t.LateIdentity id) (Action.runFrom (do
      Store.set t.storage identity entries
      let text ← Action.ofExcept (joined (← Action.ofExcept (Tag.dedupe entries)))
      note .info ("Tagged " ++ identity ++ ": " ++ text)
      t.get identity) w) := by
  by_cases hv : ∀ v ∈ entries, Tag.isValid v = true
  · obtain ⟨names, rfl, hn⟩ := Tag.exists_names hv
    exact unharmed_of_readBack hid (put_ends hs hid hn hw)
  · exact unharmed_of_refusal (set_invalid hw hv).bind_error

theorem tag_unharmed (id : String) (tags : Value) (replace : Bool) (hw : R w.state c) :
    Unharmed R c (t.LateIdentity id) ((t.tag id tags replace).runFrom w) := by
  refine unharmed_ofExcept_bind hw fun identity hid => ?_
  refine unharmed_ofExcept_bind hw fun given _ => ?_
  cases replace with
  | true => exact put_unharmed hs hid given hw
  | false =>
    dsimp only
    rw [if_neg Bool.false_ne_true, map_eq_pure_bind, bind_assoc]
    refine unharmed_bind (get_holding hs identity) hw fun tags w₁ hw₁ => ?_
    rw [pure_bind]
    exact put_unharmed hs hid _ hw₁

/-- Tags are taken away before it is known whether they can be told of. -/
theorem take_unharmed {id identity : String}
    (hid : Identity.normalize t.surroundings id = .ok identity) (removed remaining : List Value)
    (hw : R w.state c) :
    Unharmed R c (fun f => t.LateIdentity id f ∨ Untold removed f) (Action.runFrom (do
      Store.set t.storage identity remaining
      let sorted ← Action.ofExcept ((Value.sort? removed).elim (.error .wrongKind) .ok)
      note .info ("Removed " ++ (← Action.ofExcept (joined sorted)) ++ " from " ++ identity)
      t.get identity) w) := by
  by_cases hv : ∀ v ∈ remaining, Tag.isValid v = true
  · obtain ⟨names, rfl, hn⟩ := Tag.exists_names hv
    refine (set_names hs identity hn hw).bind_run fun w₁ hw₁ => ?_
    cases hsorted : Value.sort? removed with
    | none =>
      intro f hf
      cases hf
      exact .inr (.inr (untold_of_sort? hsorted))
    | some sorted =>
      have horder : (Action.ofExcept ((some sorted).elim (.error .wrongKind) .ok)).Ends w₁
          (.ok sorted) (Reads R find identity names.eraseDups) := ends_ofExcept _ hw₁
      refine horder.bind_run fun w₂ hw₂ => ?_
      cases hjoined : joined sorted with
      | error f =>
        intro f' hf
        cases hf
        exact .inr (.inr (untold_of_joined hsorted hjoined))
      | ok text =>
        have htext : (Action.ofExcept (.ok text)).Ends w₂ (.ok text)
            (Reads R find identity names.eraseDups) := ends_ofExcept _ hw₂
        refine htext.bind_run fun w₃ hw₃ => ?_
        exact (unharmed_of_readBack hid (told_ends hs hid _ hw₃)).imp fun f => Or.inl
  · exact unharmed_of_refusal (set_invalid hw hv).bind_error

theorem untag_unharmed (id : String) (tags : Option Value) (hw : R w.state c) :
    Unharmed R c (fun f => t.LateIdentity id f ∨ LateKind tags f)
      ((t.untag id tags).runFrom w) := by
  refine unharmed_ofExcept_bind hw fun identity hid => ?_
  cases tags with
  | none =>
    refine (clear_names hs identity hw).bind_run fun w₁ hw₁ => ?_
    exact (unharmed_of_readBack hid (told_ends hs hid _ hw₁)).imp fun f => Or.inl
  | some v =>
    refine unharmed_ofExcept_bind hw fun removed hremoved => ?_
    refine unharmed_bind (get_holding hs identity) hw fun current w₁ hw₁ => ?_
    refine (take_unharmed hs hid removed _ hw₁).imp fun f hf => ?_
    rcases hf with hlate | hkind
    · exact .inl hlate
    · exact .inr (lateKind_of_untold hremoved hkind)

end NeverFails

/-- An identity that becomes too long is given its tags all the same, and then refused. -/
theorem tag_overlong (hs : t.storage.NeverFails R find) (hw : R w.state c) {id identity : String}
    (hid : Identity.normalize t.surroundings id = .ok identity)
    (hlong : Identity.maxLength < identity.length) {names : List String}
    (hn : ∀ n ∈ names, Tag.isName n = true) :
    (t.tag id (.list (ofNames names)) true).Ends w (.error .idLength)
      (Reads R find identity names.eraseDups) := by
  have hput := put_ends hs hid hn hw
  rw [readBack, if_pos hlong] at hput
  rw [tag, Tagger.identity, hid]
  exact hput

/-- **A change that is refused has changed nothing, unless the refusal is one of those that come too
late.** -/
theorem unchanged_unless_late (hs : t.storage.NeverFails R find) (hw : R w.state c)
    (change : Change) {f : Failure} (hf : ((change.act t).runFrom w).1 = .error f) :
    R ((change.act t).runFrom w).2.state c ∨ change.Late t f := by
  have hunharmed : Unharmed R c (change.Late t) ((change.act t).runFrom w) := by
    cases change with
    | tag id tags replace => exact (tag_unharmed hs id tags replace hw).map
    | untag id tags => exact (untag_unharmed hs id tags hw).map
    | renamed old new =>
      refine Unharmed.map (unharmed_ofExcept_bind hw fun old' _ => ?_)
      exact unharmed_ofExcept_bind hw fun new' _ => rename_unharmed hs old' new' hw
    | deleted id =>
      refine Unharmed.map (unharmed_ofExcept_bind hw fun identity _ => ?_)
      exact unharmed_of_answer (clear_names hs identity hw)
  exact hunharmed f hf

/-- A text is no collection of tags, so the tags that are there stay. -/
theorem unchanged_unless_late_of_bare :
    let t : Tagger Table := ⟨memory, ⟨"/work", { own := "/home/user" }⟩, false, fun _ => .ok true⟩
    let table : Table := [("file:///a", ofNames ["x", "y"])]
    let change : Change := .untag "/a" (some (.text "x"))
    ((change.act t).runFrom ⟨table, Log.start 0⟩).1 = .error (.bareTags "x") ∧
      (((change.act t).runFrom ⟨table, Log.start 0⟩).2.state = table ∨
        change.Late t (.bareTags "x")) := by
  have hf : (((Change.untag "/a" (some (.text "x"))).act
      (⟨memory, ⟨"/work", { own := "/home/user" }⟩, false, fun _ => .ok true⟩ : Tagger Table)).runFrom
        ⟨[("file:///a", ofNames ["x", "y"])], Log.start 0⟩).1 = .error (.bareTags "x") := by cbv
  exact ⟨hf, unchanged_unless_late memory_neverFails rfl _ hf⟩

/-- Of a path of one long word the tags are kept, and then it is refused. -/
theorem changed_word {t : Tagger Table} (hs : t.storage.NeverFails Eq Entries.find?) {cs : List Char}
    (hletters : ∀ l ∈ cs, Uri.isLetter l = true) (hshort : cs.length < Identity.maxLength)
    (hlong : Identity.maxLength ≤ cs.length + 7) :
    let change : Change := .tag (String.ofList ('/' :: cs)) (.list (ofNames ["x"])) true
    let out := (change.act t).runFrom ⟨[], Log.start 0⟩
    out.1 = .error .idLength ∧ out.2.state ≠ [] := by
  intro change out
  have hne : cs ≠ [] := by
    rintro rfl
    exact absurd hlong (by decide)
  have hid := Identity.normalize_letters (s := t.surroundings) hletters hne hshort
  have hscheme : "file://".length = 7 := by decide
  have hlength : Identity.maxLength < ("file://" ++ String.ofList ('/' :: cs)).length := by
    rw [String.length_append, hscheme, String.length_ofList, List.length_cons]
    omega
  have hname : ∀ n ∈ ["x"], Tag.isName n = true := by decide
  have htag := tag_overlong (w := ⟨[], Log.start 0⟩) hs rfl hid hlength hname
  have hout : (change.act t).Ends ⟨[], Log.start 0⟩ (.error .idLength)
      (Reads Eq Entries.find? ("file://" ++ String.ofList ('/' :: cs)) ["x"]) := htag.bind_error
  obtain ⟨hr, table, hstate, hfound⟩ := hout
  refine ⟨hr, fun hempty => ?_⟩
  have htable : table = [] := hstate.symm.trans hempty
  rw [htable, Entries.find?_nil] at hfound
  cases hfound

/-- **Not every change that is refused has changed nothing.**  The path has five characters fewer
than an identity may have, and its URI two more. -/
theorem changed_though_refused :
    let t : Tagger Table := ⟨memory, ⟨"/work", { own := "/home/user" }⟩, false, fun _ => .ok true⟩
    let path := String.ofList ('/' :: List.replicate 4090 'a')
    let change : Change := .tag path (.list (ofNames ["x"])) true
    let out := (change.act t).runFrom ⟨[], Log.start 0⟩
    out.1 = .error .idLength ∧ out.2.state ≠ [] := by
  have hletters : ∀ c ∈ List.replicate 4090 'a', Uri.isLetter c = true := by
    intro c hc
    rw [List.eq_of_mem_replicate hc]
    decide
  have hlength : (List.replicate 4090 'a').length = 4090 := List.length_replicate
  have hshort : (List.replicate 4090 'a').length < Identity.maxLength := by
    rw [hlength]
    decide
  have hlong : Identity.maxLength ≤ (List.replicate 4090 'a').length + 7 := by
    rw [hlength]
    decide
  exact changed_word memory_neverFails hletters hshort hlong

end Tagger

end FileTags
