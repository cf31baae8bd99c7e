import FileTags.Proofs.Json.Limits
import FileTags.Proofs.Storage.DataFile
import FileTags.Storage.DatabaseFile
/-! # Damaged data files

What the storage in a data file reports when the file holds any bytes whatever.  Most damage is a fault
of the storage: bytes that are a text but no object, or no data text at all.  Four kinds of damage come
out as failures of other kinds (`Unreported`), and nothing else does (`damage_reported`): bytes that are
no text, a number with too many digits, lists and tables too deep inside one another, and half of a pair of
surrogates.  A text without such numbers, with few brackets and with no escaped surrogate has none of them
(`Ordinary.not_unreported`).

In the first two kinds the file is not read at all, so every call fails; so it is in the third beyond
`surelyTooDeep`, for how much room there is depends on the caller (`Unread`).  Half of a pair of surrogates is
no text of this library, so nothing is said of how far a call gets with it.
-/
namespace FileTags

/-! ## Refusals of a disk -/

namespace Disk

open FileTags.Action

variable {d : Disk} {p : Path}

/-- A failure of the system. -/
def OfSystem (f : Failure) : Prop := ∃ fault, f = .system fault

theorem failing_system {α : Type} (fault : SystemFault) :
    Failing OfSystem (.error (.system fault) : Except Failure α) := failing_error ⟨fault, rfl⟩

theorem failing_locate (h : p.hasNul = false) (d : Disk) : Failing OfSystem (d.locate p) := by
  rw [locate, h, if_neg Bool.false_ne_true]
  split
  · exact failing_system _
  · split
    · split
      · exact failing_system _
      · exact failing_ok _
    · split
      · exact failing_system _
      · split
        · exact failing_system _
        · exact failing_system _

theorem failing_filePlace (h : p.hasNul = false) (d : Disk) : Failing OfSystem (d.filePlace p) := by
  refine (failing_locate h d).bind fun place => ?_
  dsimp only
  split
  · exact failing_system _
  · exact failing_ok _

theorem failing_freshBeside (h : p.hasNul = false) (d : Disk) : Failing OfSystem (d.freshBeside p) := by
  refine (failing_locate (hasNul_eq_false_of_parent h) d).bind fun folder => ?_
  dsimp only
  split
  · exact failing_system _
  · exact failing_ok _

theorem failsOnly_rename (h : p.hasNul = false) (source : List String) :
    FailsOnly OfSystem (rename source p) := by
  intro d _
  refine ⟨trivial, ?_⟩
  rw [rename, Action.runFrom_ofRun]
  split
  · exact failing_system _
  · rename_i f _ hplace
    exact failing_error (failing_filePlace h d f hplace)
  · exact failing_system _
  · exact failing_ok _

theorem failsOnly_replace (h : p.hasNul = false) (c : Content) : FailsOnly OfSystem (replace p c) := by
  rw [replace, h, if_neg Bool.false_ne_true]
  refine failsOnly_get.bind fun d => ?_
  refine (failsOnly_ofExcept (failing_freshBeside h d)).bind fun fresh => ?_
  refine (failsOnly_modify _).bind fun _ => ?_
  refine (failsOnly_rename h fresh).attempt_bind fun r hr => ?_
  split
  · exact failsOnly_pure ()
  · exact (failsOnly_modify _).bind fun _ => failsOnly_throw (hr _ rfl)

theorem failsOnly_makeOneFolder (h : p.hasNul = false) : FailsOnly OfSystem (makeOneFolder p) := by
  intro d _
  refine ⟨trivial, ?_⟩
  rw [makeOneFolder, Action.runFrom_ofRun]
  split
  · rename_i f hlocate
    exact failing_error (failing_locate h d f hlocate)
  · split
    · exact failing_system _
    · split
      · exact failing_ok _
      · exact failing_ok _

theorem failsOnly_makeFolders {root : Path.Root} {names : List String}
    (h : (Path.mk root names.reverse).hasNul = false) : FailsOnly OfSystem (makeFolders root names) := by
  induction names with
  | nil => exact failsOnly_makeOneFolder h
  | cons name above ih =>
    have habove : (Path.mk root above.reverse).hasNul = false :=
      parent_mk_reverse root name above ▸ hasNul_eq_false_of_parent h
    rw [makeFolders]
    refine (failsOnly_makeOneFolder h).attempt_bind fun r hr => ?_
    split
    · exact failsOnly_pure ()
    · exact (ih habove).bind fun _ => failsOnly_makeOneFolder h
    · exact failsOnly_throw (hr _ rfl)

theorem failsOnly_makeFolder (h : p.hasNul = false) : FailsOnly OfSystem (makeFolder p) :=
  failsOnly_makeFolders (by rwa [List.reverse_reverse])

end Disk

/-! ## Bytes -/

namespace Content

/-- What a file of these bytes holds if no database wrote it: a text, if they are the bytes of one. -/
def plain (bytes : ByteArray) : Content :=
  match String.fromUTF8? bytes with
  | some s => .text s
  | none => .bytes bytes.data.toList

/-- Only what bears the mark of a database is taken for something else. -/
theorem ofBytes_eq_plain {bytes : ByteArray}
    (h : ∀ s : String, s.toUTF8 = bytes → databaseMark.isPrefixOf s = false) :
    ofBytes bytes = plain bytes := by
  rw [ofBytes, plain, String.fromUTF8?]
  by_cases hvalid : bytes.IsValidUTF8
  · rw [dif_pos hvalid]
    dsimp only
    rw [ofText, h _ rfl, if_neg Bool.false_ne_true]
  · rw [dif_neg hvalid]

theorem plain_toUTF8 (s : String) : plain s.toUTF8 = .text s := by
  rw [plain, String.fromUTF8?, dif_pos (show s.toUTF8.IsValidUTF8 from s.isValidUTF8)]
  rfl

theorem plain_of_not_text {bytes : ByteArray} (h : ∀ s : String, s.toUTF8 ≠ bytes) :
    plain bytes = .bytes bytes.data.toList := by
  rw [plain, String.fromUTF8?, dif_neg fun hvalid => h (String.fromUTF8 bytes hvalid) rfl]

end Content

namespace Storage

open FileTags.Action Decimal Disk

variable {d : Disk} {p : Path} {place : List String} {bytes : ByteArray} {f : Failure}

/-! ## Kinds of damage -/

/-- **The damage that is not reported as a fault of the storage**, by the failure that comes out. -/
inductive Unreported (bytes : ByteArray) : Failure → Prop where
  | notText (h : ∀ s : String, s.toUTF8 ≠ bytes) : Unreported bytes .undecodable
  | tooManyDigits {s : String} {n : Nat} (hs : s.toUTF8 = bytes)
      (h : Json.read s = .error (.tooManyDigits n)) : Unreported bytes (.tooManyDigits n)
  | tooDeep {s : String} {c : Option Container} (hs : s.toUTF8 = bytes)
      (h : Json.read s = .error (.tooDeep c)) : Unreported bytes (.tooDeep c)
  | halfPair {s : String} (hs : s.toUTF8 = bytes) (h : Json.read s = .error .halfPair) :
      Unreported bytes .unencodable

/-- So many lists and tables can stand inside one another wherever they are read. -/
def surelyRead : Nat := 500

/-- So many lists inside one another are too deep wherever they are read. -/
def surelyTooDeep : Nat := 1000

/-- **The damage that keeps the file from being read**, by the failure that comes out. -/
inductive Unread (bytes : ByteArray) : Failure → Prop where
  | notText (h : ∀ s : String, s.toUTF8 ≠ bytes) : Unread bytes .undecodable
  | tooManyDigits {s : String} {n : Nat} (hs : s.toUTF8 = bytes)
      (h : Json.read s = .error (.tooManyDigits n)) : Unread bytes (.tooManyDigits n)
  | tooDeep {n : Nat} {rest : List Char} (hn : surelyTooDeep < n)
      (hs : (String.ofList (List.replicate n '[' ++ rest)).toUTF8 = bytes) :
      Unread bytes (.tooDeep (some .list))

/-- The bytes of a text with no number of too many digits and no escaped surrogate, in which no more is
opened than can stand inside one another. -/
structure Ordinary (bytes : ByteArray) (s : String) : Prop where
  text : s.toUTF8 = bytes
  digits : ∀ digits, digits <:+: s.toList → AllDigits digits → digits.length ≤ maxDigits
  openings : s.toList.countP Json.opensAny ≤ surelyRead
  surrogates : ¬ Json.EscapesSurrogate s.toList

theorem Unreported.ofStorage (h : Unreported bytes f) : f.ofStorage = false := by
  cases h <;> rfl

theorem Unread.unreported (h : Unread bytes f) : Unreported bytes f := by
  cases h with
  | notText hnone => exact .notText hnone
  | tooManyDigits hs hread => exact .tooManyDigits hs hread
  | tooDeep hn hs =>
    have hdeep : Json.maxDepth < surelyTooDeep := by decide
    exact .tooDeep hs (Json.read_openings (hdeep.trans hn) _)

/-- An ordinary text has no damage of these kinds. -/
theorem Ordinary.not_unreported {s : String} (h : Ordinary bytes s) : ¬ Unreported bytes f := by
  have heq : ∀ {t : String}, t.toUTF8 = bytes → s = t := fun ht =>
    String.toByteArray_inj.1 (h.text.trans ht.symm)
  intro hf
  cases hf with
  | notText hnone => exact hnone s h.text
  | tooManyDigits ht hread =>
    obtain rfl := heq ht
    obtain ⟨digits, hpart, hdigits, hlength⟩ := Json.digits_of_read hread
    exact absurd (h.digits digits hpart hdigits) (Nat.not_le_of_gt hlength)
  | tooDeep ht hread =>
    obtain rfl := heq ht
    have hdepth : surelyRead ≤ Json.maxDepth := by decide
    exact absurd (h.openings.trans hdepth) (Nat.not_le_of_gt (Json.openings_of_read hread))
  | halfPair ht hread =>
    obtain rfl := heq ht
    exact h.surrogates (Json.surrogate_of_read hread)

/-! ## What is loaded -/

/-- **What fails in loading is a fault of the storage, or damage of these kinds.** -/
theorem loaded_error (h : loaded p (some (.plain bytes)) = .error f) :
    f.ofStorage = true ∨ Unreported bytes f := by
  by_cases hnone : ∀ s : String, s.toUTF8 ≠ bytes
  · rw [Content.plain_of_not_text hnone] at h
    rw [← Except.error.inj h]
    exact .inr (.notText hnone)
  · obtain ⟨s, rfl⟩ := not_forall_not.1 hnone
    rw [Content.plain_toUTF8, loaded] at h
    split at h
    · cases h
    · rw [← Except.error.inj h]
      exact .inl rfl
    · rename_i fault hread
      rw [← Except.error.inj h]
      cases fault with
      | malformed => exact .inl rfl
      | tooManyDigits n => exact .inr (.tooManyDigits rfl hread)
      | tooDeep c => exact .inr (.tooDeep rfl hread)
      | halfPair => exact .inr (.halfPair rfl hread)

theorem loaded_of_unreported (h : Unreported bytes f) :
    loaded p (some (.plain bytes)) = .error f := by
  cases h with
  | notText hnone =>
    rw [Content.plain_of_not_text hnone]
    rfl
  | tooManyDigits hs hread | tooDeep hs hread | halfPair hs hread =>
    rw [← hs, Content.plain_toUTF8, loaded, hread]
    rfl

/-! ## Calls -/

/-- The failures that the storage reports as its own. -/
def OfStorage (f : Failure) : Prop := f.ofStorage = true

/-- What the system refuses when the file is written is a fault of the storage. -/
theorem failsOnly_saveFile (h : p.hasNul = false) (entries : Entries String Value) :
    FailsOnly OfStorage (saveFile p entries) := by
  have hact : FailsOnly OfSystem (do
      Disk.makeFolder p.parent
      Disk.replace p (.text (Json.write .indented (.table entries)))) :=
    (failsOnly_makeFolder (hasNul_eq_false_of_parent h)).bind fun _ => failsOnly_replace h _
  rw [saveFile]
  refine hact.attempt_bind fun r hr => ?_
  split
  · exact failsOnly_pure ()
  · exact failsOnly_throw rfl
  · rename_i f hf
    obtain ⟨fault, rfl⟩ := hr f rfl
    exact absurd rfl (hf fault)

theorem failing_recordOf (k : String) (v : Value) : Failing OfStorage (recordOf k v) := by
  cases v with
  | null | list items => exact failing_ok _
  | _ => exact failing_error rfl

/-- **Every call loads the file first**, and what fails then is a fault of the storage. -/
theorem exists_on (h : p.hasNul = false) (c : Call) :
    ∃ rest : Entries String Value → Action Disk Reply, c.on (jsonFile p) = loadFile p >>= rest ∧
      ∀ entries, FailsOnly OfStorage (rest entries) := by
  cases c with
  | read k =>
    refine ⟨_, bind_assoc _ _ _, fun entries => FailsOnly.bind ?_ fun _ => failsOnly_pure _⟩
    split
    · exact failsOnly_ofExcept (failing_recordOf k _)
    · exact failsOnly_pure none
  | write k names =>
    refine ⟨_, bind_assoc _ _ _, fun entries => FailsOnly.bind ?_ fun _ => failsOnly_pure _⟩
    exact failsOnly_saveFile h _
  | delete k =>
    refine ⟨_, bind_assoc _ _ _, fun entries => FailsOnly.bind ?_ fun _ => failsOnly_pure _⟩
    split
    · exact (failsOnly_saveFile h _).bind fun _ => failsOnly_pure true
    · exact failsOnly_pure false
  | keys =>
    refine ⟨_, bind_assoc _ _ _, fun entries => FailsOnly.bind ?_ fun _ => failsOnly_pure _⟩
    exact failsOnly_pure (Entries.keys entries)

/-- What fails in loading the file is what every call fails with. -/
theorem runFrom_on_of_unreported (hplace : d.filePlace p = .ok place)
    (hfile : Entries.find? d.files place = some (.plain bytes)) (hf : Unreported bytes f) (c : Call) :
    (c.on (jsonFile p)).runFrom d = (.error f, d) := by
  obtain ⟨rest, hon, -⟩ := exists_on (locate_eq_ok.1 (filePlace_eq_ok.1 hplace).1).1 c
  rw [hon, Action.runFrom_bind, loadFile_of_place hplace, hfile, loaded_of_unreported hf]

/-- A call that fails has failed in loading the file, or with a fault of the storage. -/
theorem unreported_of_runFrom_on (hplace : d.filePlace p = .ok place)
    (hfile : Entries.find? d.files place = some (.plain bytes)) {c : Call}
    (h : ((c.on (jsonFile p)).runFrom d).1 = .error f) : f.ofStorage = true ∨ Unreported bytes f := by
  obtain ⟨rest, hon, hrest⟩ := exists_on (locate_eq_ok.1 (filePlace_eq_ok.1 hplace).1).1 c
  rw [hon, Action.runFrom_bind, loadFile_of_place hplace, hfile] at h
  cases hload : loaded p (some (.plain bytes)) with
  | error g =>
    rw [hload] at h
    obtain rfl := Except.error.inj h
    exact loaded_error hload
  | ok entries =>
    rw [hload] at h
    exact .inl ((hrest entries d trivial).2 f h)

/-- Whole numbers with too many digits keep a file from being read too. -/
theorem unread_of_digits {s : String} (h : IsWhole s.toList) (hlength : maxDigits < s.toList.length) :
    Unread s.toUTF8 (.tooManyDigits s.toList.length) :=
  .tooManyDigits rfl (Json.read_digits h hlength)

end Storage

end FileTags
