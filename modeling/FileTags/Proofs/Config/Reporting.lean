import FileTags.Proofs.Config
import FileTags.Proofs.Toml.Documents
/-! # What loading a configuration reports

A configuration file may hold anything, and each of its entries may have any kind.  What is wrong with it
is mostly reported as a value that was refused: bytes that are no text, a text that is no document, a version
that is too new, sweeping that is no truth value.  Three things come out as failures of other kinds
(`Unreported`): a section that is no table, a version that is no number, and lists or tables too deep
inside one another.  These always come out so, and nothing else does (`load_reports`).

What is loaded has a version of at most the latest and says whether to sweep by a truth value; but the
value that is no number has no order, so it passes for a version too (`IsNoNumber`).
-/
namespace FileTags.Config

open Decimal Toml

variable {F : Path} {d : Disk} {place : List String} {content : Content} {root es : Fields} {name s : String}
  {v : Value} {c : Config} {f : Failure}

/-! ## Versions -/

/-- A value is a number, and at most this one. -/
def AtMost (v : Value) (n : Int) : Prop :=
  ∃ q, v.quantity? = some q ∧ (q.compare? (.whole n) = some .lt ∨ q.compare? (.whole n) = some .eq)

/-- The floating value that is no number. -/
def IsNoNumber (v : Value) : Prop := ∃ x, v = .float x ∧ x.view = .notANumber

/-- What has no order with a whole number is no number. -/
theorem isNoNumber_of_compare {q : Value.Quantity} {n : Int} (hv : v.quantity? = some q)
    (h : q.compare? (.whole n) = none) : IsNoNumber v := by
  cases v with
  | bool | int =>
    obtain rfl := Option.some.inj hv
    cases h
  | float x =>
    obtain rfl := Option.some.inj hv
    have hnone : x.compareInt? n = none := h
    rw [Binary64.compareInt?] at hnone
    split at hnone
    · cases hnone
    · cases hnone
    · rename_i hview
      exact ⟨x, rfl, hview⟩
  | null | text | moment | list | table => cases hv

/-- **The versions that can be read** are those up to the latest, and what is no number. -/
theorem checkVersion_eq_ok_iff :
    checkVersion v = .ok () ↔ AtMost v latestVersion ∨ IsNoNumber v := by
  rw [checkVersion]
  constructor
  · intro h
    split at h
    · cases h
    · rename_i q hq
      split at h
      · cases h
      · rename_i hnot
        cases horder : q.compare? (.whole latestVersion) with
        | none => exact .inr (isNoNumber_of_compare hq horder)
        | some order =>
          cases order with
          | lt => exact .inl ⟨q, hq, .inl horder⟩
          | eq => exact .inl ⟨q, hq, .inr horder⟩
          | gt => exact absurd horder hnot
  · rintro (⟨q, hq, horder⟩ | ⟨x, rfl, hview⟩)
    · have hnot : q.compare? (.whole latestVersion) ≠ some .gt := by
        rcases horder with horder | horder <;> rw [horder] <;> decide
      rw [hq]
      exact if_neg hnot
    · have hnone : x.compareInt? latestVersion = none := by rw [Binary64.compareInt?, hview]
      show (if x.compareInt? latestVersion = some .gt then _ else _) = _
      rw [hnone]
      rfl

example : checkVersion (.float Binary64.nan) = .ok () := rfl

theorem ofValue_showing (hf : f.ofValue = true) : (Failure.showing v f).ofValue = true := by
  rw [Failure.showing]
  split
  · exact hf
  · rfl

theorem checkVersion_error (h : checkVersion v = .error f) :
    f.ofValue = true ∨ f = .wrongKind ∧ v.quantity? = none := by
  rw [checkVersion] at h
  split at h
  · rename_i hnone
    exact .inr ⟨(Except.error.inj h).symm, hnone⟩
  · split at h
    · rw [← Except.error.inj h]
      exact .inl (ofValue_showing rfl)
    · cases h

/-! ## Sections -/

/-- A value is no table. -/
def NoTable (v : Value) : Prop := ∀ es, v ≠ .table es

/-- **The entries of a section**, of which a missing one has none. -/
inductive HasSection (root : Fields) (name : String) : Fields → Prop where
  | given {es : Fields} (h : Entries.find? root name = some (.table es)) : HasSection root name es
  | missing (h : Entries.find? root name = none) : HasSection root name []

theorem sectionOf_eq_ok_iff : sectionOf root name = .ok es ↔ HasSection root name es := by
  rw [sectionOf]
  constructor
  · intro h
    cases hv : Entries.find? root name with
    | none =>
      rw [hv] at h
      obtain rfl := Except.ok.inj h
      exact .missing hv
    | some v =>
      rw [hv] at h
      cases v with
      | table entries =>
        obtain rfl := Except.ok.inj h
        exact .given hv
      | _ => cases h
  · rintro (h | h)
    · rw [h]
      rfl
    · rw [h]

theorem sectionOf_eq_error_iff :
    sectionOf root name = .error f ↔
      f = .notATable ∧ ∃ v, Entries.find? root name = some v ∧ NoTable v := by
  rw [sectionOf]
  constructor
  · intro h
    cases hv : Entries.find? root name with
    | none =>
      rw [hv] at h
      cases h
    | some v =>
      rw [hv] at h
      cases v with
      | table entries => cases h
      | _ => exact ⟨(Except.error.inj h).symm, _, rfl, nofun⟩
  · rintro ⟨rfl, v, hv, hnot⟩
    rw [hv]
    cases v with
    | table entries => exact absurd rfl (hnot entries)
    | _ => rfl

/-! ## Documents -/

/-- **What a document says that is not reported as a value that was refused**, by the failure that comes
out of it. -/
inductive Unreported (s : String) : Failure → Prop where
  | tooDeep {container : Option Container} (h : Toml.read s = .error (.tooDeep container)) :
      Unreported s (.tooDeep container)
  | store {root : Fields} {v : Value} (h : Toml.read s = .ok root)
      (entry : Entries.find? root "store" = some v) (noTable : NoTable v) : Unreported s .notATable
  | version {root es : Fields} (h : Toml.read s = .ok root) (store : HasSection root "store" es)
      (noNumber : (valueOr es "version" (.int 1)).quantity? = none) : Unreported s .wrongKind
  /-- The other sections are looked at if the version can be read. -/
  | later {root es : Fields} {v : Value} {name : String} (h : Toml.read s = .ok root)
      (store : HasSection root "store" es)
      (readable : checkVersion (valueOr es "version" (.int 1)) = .ok ())
      (isSection : name = "backend" ∨ name = "sweep") (entry : Entries.find? root name = some v)
      (noTable : NoTable v) : Unreported s .notATable

theorem Unreported.ofValue (h : Unreported s f) : f.ofValue = false := by
  cases h <;> rfl

/-- An ordinary text: it opens few lists and tables, its sections are tables, and its version is a
number. -/
structure Ordinary (s : String) : Prop where
  openings : 3 * s.toList.countP opensAny ≤ fullRoom
  sections : ∀ root, Toml.read s = .ok root → ∀ name ∈ ["store", "backend", "sweep"],
    ∃ es, HasSection root name es
  version : ∀ root es, Toml.read s = .ok root → HasSection root "store" es →
    (valueOr es "version" (.int 1)).quantity? ≠ none

theorem HasSection.isTable (h : HasSection root name es) (hv : Entries.find? root name = some v) :
    ¬ NoTable v := by
  intro hnot
  cases h with
  | given hes => exact hnot es (Option.some.inj (hv.symm.trans hes))
  | missing hnone =>
    rw [hnone] at hv
    cases hv

theorem Ordinary.not_unreported (h : Ordinary s) : ¬ Unreported s f := by
  intro hf
  cases hf with
  | tooDeep hread => exact absurd h.openings (Nat.not_le_of_gt (openings_of_read hread))
  | store hread entry noTable =>
    obtain ⟨es, hes⟩ := h.sections _ hread "store" (by decide)
    exact hes.isTable entry noTable
  | version hread store noNumber => exact h.version _ _ hread store noNumber
  | later hread store readable isSection entry noTable =>
    rcases isSection with rfl | rfl
    · obtain ⟨es, hes⟩ := h.sections _ hread "backend" (by decide)
      exact hes.isTable entry noTable
    · obtain ⟨es, hes⟩ := h.sections _ hread "sweep" (by decide)
      exact hes.isTable entry noTable

/-- What sections say together. -/
def ofSections (F : Path) (store backend sweep : Fields) : Config where
  folder := F
  version := valueOr store "version" (.int 1)
  created := valueOr store "created" (.text "")
  backend := valueOr backend "name" (.text defaultBackend)
  params := backend.filter fun e => e.1 ≠ "name"
  sweepOnList := valueOr sweep "on_list" (.bool false)

/-- **What a document is loaded as**: each section and entry is checked in its turn. -/
inductive FieldsLoaded (F : Path) (root : Fields) : Except Failure Config → Prop where
  | store {v : Value} (entry : Entries.find? root "store" = some v) (noTable : NoTable v) :
      FieldsLoaded F root (.error .notATable)
  | version {es : Fields} {f : Failure} (store : HasSection root "store" es)
      (refused : checkVersion (valueOr es "version" (.int 1)) = .error f) :
      FieldsLoaded F root (.error f)
  | later {es : Fields} {v : Value} {name : String} (store : HasSection root "store" es)
      (readable : checkVersion (valueOr es "version" (.int 1)) = .ok ())
      (isSection : name = "backend" ∨ name = "sweep") (entry : Entries.find? root name = some v)
      (noTable : NoTable v) : FieldsLoaded F root (.error .notATable)
  | sweep (v : Value) : FieldsLoaded F root (.error (.showing v (.sweepNotTruth v)))
  | ok {es backend sweep : Fields} (hstore : HasSection root "store" es)
      (hbackend : HasSection root "backend" backend) (hsweep : HasSection root "sweep" sweep)
      (readable : checkVersion (ofSections F es backend sweep).version = .ok ()) {b : Bool}
      (truth : (ofSections F es backend sweep).sweepOnList = .bool b) :
      FieldsLoaded F root (.ok (ofSections F es backend sweep))

theorem fieldsLoaded (F : Path) (root : Fields) : FieldsLoaded F root (ofFields F root) := by
  rw [ofFields]
  cases hstore : sectionOf root "store" with
  | error f =>
    obtain ⟨rfl, v, hv, hnot⟩ := sectionOf_eq_error_iff.1 hstore
    exact .store hv hnot
  | ok es =>
    have hes := sectionOf_eq_ok_iff.1 hstore
    dsimp only [bind, Except.bind]
    cases hversion : checkVersion (valueOr es "version" (.int 1)) with
    | error f => exact .version hes hversion
    | ok u =>
      dsimp only
      cases hbackend : sectionOf root "backend" with
      | error f =>
        obtain ⟨rfl, v, hv, hnot⟩ := sectionOf_eq_error_iff.1 hbackend
        exact .later hes hversion (.inl rfl) hv hnot
      | ok backend =>
        dsimp only
        cases hsweep : sectionOf root "sweep" with
        | error f =>
          obtain ⟨rfl, v, hv, hnot⟩ := sectionOf_eq_error_iff.1 hsweep
          exact .later hes hversion (.inr rfl) hv hnot
        | ok sweep =>
          dsimp only
          split
          · rename_i b hb
            exact .ok hes (sectionOf_eq_ok_iff.1 hbackend) (sectionOf_eq_ok_iff.1 hsweep) hversion hb
          · exact .sweep _

theorem ofFields_of_store (entry : Entries.find? root "store" = some v) (noTable : NoTable v) :
    ofFields F root = .error .notATable := by
  rw [ofFields, sectionOf_eq_error_iff.2 ⟨rfl, v, entry, noTable⟩]
  rfl

theorem ofFields_of_version (store : HasSection root "store" es)
    (noNumber : (valueOr es "version" (.int 1)).quantity? = none) :
    ofFields F root = .error .wrongKind := by
  rw [ofFields, sectionOf_eq_ok_iff.2 store]
  dsimp only [bind, Except.bind]
  rw [checkVersion, noNumber]

theorem ofFields_of_later (store : HasSection root "store" es)
    (readable : checkVersion (valueOr es "version" (.int 1)) = .ok ())
    (isSection : name = "backend" ∨ name = "sweep") (entry : Entries.find? root name = some v)
    (noTable : NoTable v) : ofFields F root = .error .notATable := by
  rw [ofFields, sectionOf_eq_ok_iff.2 store]
  dsimp only [bind, Except.bind]
  rw [readable]
  dsimp only
  have hnot : sectionOf root name = .error .notATable :=
    sectionOf_eq_error_iff.2 ⟨rfl, v, entry, noTable⟩
  rcases isSection with rfl | rfl
  · rw [hnot]
  · cases hbackend : sectionOf root "backend" with
    | ok backend =>
      dsimp only
      rw [hnot]
    | error f =>
      obtain ⟨rfl, -⟩ := sectionOf_eq_error_iff.1 hbackend
      rfl

/-! ## Files -/

theorem ofContent_of_unreported (h : Unreported s f) : ofContent F (.text s) = .error f := by
  cases h with
  | tooDeep hread =>
    rw [ofContent, hread]
    rfl
  | store hread entry noTable =>
    rw [ofContent, hread]
    exact ofFields_of_store entry noTable
  | version hread store noNumber =>
    rw [ofContent, hread]
    exact ofFields_of_version store noNumber
  | later hread store readable isSection entry noTable =>
    rw [ofContent, hread]
    exact ofFields_of_later store readable isSection entry noTable

/-- **What fails in loading is a refused value, or comes out of the document as it is.** -/
theorem ofContent_error (h : ofContent F content = .error f) :
    f.ofValue = true ∨ ∃ s, content = .text s ∧ Unreported s f := by
  cases content with
  | bytes | database =>
    obtain rfl := Except.error.inj h
    exact .inl rfl
  | text s =>
    rw [ofContent] at h
    cases hs : Toml.read s with
    | error fault =>
      rw [hs] at h
      obtain rfl := Except.error.inj h
      cases fault with
      | malformed | tooManyDigits | halfPair => exact .inl rfl
      | tooDeep => exact .inr ⟨s, rfl, .tooDeep hs⟩
    | ok root =>
      rw [hs] at h
      have hloaded := fieldsLoaded F root
      dsimp only at h
      rw [h] at hloaded
      cases hloaded with
      | store entry noTable => exact .inr ⟨s, rfl, .store hs entry noTable⟩
      | version store refused =>
        rcases checkVersion_error refused with hvalue | ⟨rfl, hnone⟩
        · exact .inl hvalue
        · exact .inr ⟨s, rfl, .version hs store hnone⟩
      | later store readable isSection entry noTable =>
        exact .inr ⟨s, rfl, .later hs store readable isSection entry noTable⟩
      | sweep v => exact .inl (ofValue_showing rfl)

theorem ofContent_ok (h : ofContent F content = .ok c) :
    (AtMost c.version latestVersion ∨ IsNoNumber c.version) ∧ ∃ b, c.sweepOnList = .bool b := by
  cases content with
  | bytes | database => cases h
  | text s =>
    rw [ofContent] at h
    cases hs : Toml.read s with
    | error fault =>
      rw [hs] at h
      cases h
    | ok root =>
      rw [hs] at h
      have hloaded := fieldsLoaded F root
      dsimp only at h
      rw [h] at hloaded
      cases hloaded with
      | ok hstore hbackend hsweep readable truth =>
        exact ⟨checkVersion_eq_ok_iff.1 readable, _, truth⟩

/-- The store of the examples, whose configuration is a text. -/
def storeWith (s : String) : Disk :=
  ⟨[(["store", fileName], .text s)], [["store"]], none⟩

theorem read_newer :
    Toml.read "store.version = 2" = .ok [("store", .table [("version", .int 2)])] := by
  have hstatement : statement .empty ('s' :: ['t', 'o', 'r', 'e', '.', 'v', 'e', 'r', 's', 'i', 'o', 'n',
      ' ', '=', ' ', '2']) =
        .ok (⟨[("store", .table [("version", .int 2)])], [], [], [["store"]], []⟩, []) := by
    refine statement_of_key ["store", "version"] (.int 2) [' ', '2'] (by decide) (by decide) ?_
      (fun fuel => ?_) ?_
    · cbv
    · cbv
    · cbv
  exact read_of_statement (by decide) (by decide) (by decide) (by decide) hstatement

end FileTags.Config
