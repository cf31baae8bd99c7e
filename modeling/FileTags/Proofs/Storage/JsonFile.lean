import FileTags.Proofs.Disk
import FileTags.Proofs.Json.RoundTrip
import FileTags.Proofs.Storage.Calls
import FileTags.Storage.JsonFile
/-! # What a data file keeps

The storage in a data file reads all of it for every call and writes all of it for every change, so
it keeps entries because what it wrote is what it reads (`Json.read_write`) at the place where it
wrote it (`Disk.replace_ends`).  Before the first change there need be no file, and not even its
folder.
-/
namespace FileTags.Storage

open Record (ofNames)

variable {p : Path} {d : Disk} {es : Entries String (List String)}

/-- A list of names comes back from its text. -/
theorem comesBack_ofNames {style : Json.Style} (hstyle : style.asciiOnly = false)
    (names : List String) : Json.ComesBack style 1 (.list (ofNames names)) := by
  refine Json.comesBack_list fun v hv => ?_
  obtain ⟨name, -, rfl⟩ := List.mem_map.1 hv
  exact Json.comesBack_text hstyle name

/-- What comes back of a list of names is read as the same names. -/
theorem map_toText_ofNames (names : List String) :
    ((ofNames names).map fun v => Value.text v.toText) = ofNames names := by
  rw [ofNames, List.map_map]
  rfl

/-- The members of the object that the entries are written as. -/
def members (es : Entries String (List String)) : Entries String Value :=
  Entries.mapValues (fun names => .list (ofNames names)) es

/-- The text of the object. -/
def fileText (es : Entries String (List String)) : String :=
  Json.write .indented (.table (members es))

/-- **The object is read as it was written**, if no key comes twice. -/
theorem read_fileText (h : (Entries.keys es).Nodup) :
    Json.read (fileText es) = .ok (.table (members es)) := by
  have hnodup : ((members es).map Prod.fst).Nodup := by
    have hkeys : (members es).map Prod.fst = Entries.keys es := Entries.keys_mapValues _ es
    rwa [hkeys]
  have hmembers : ∀ e ∈ members es, Json.ComesBack .indented 1 e.2 := by
    intro e he
    obtain ⟨e', -, rfl⟩ := List.mem_map.1 he
    exact comesBack_ofNames rfl e'.2
  exact Json.read_write (Json.comesBack_table rfl hnodup hmembers) (by decide)

/-! ## Loading and saving -/

/-- **A data file stands for entries**: reading it gives them, and nothing is in the way of
replacing it. -/
structure InFile (p : Path) (d : Disk) (es : Entries String (List String)) : Prop where
  nodup : (Entries.keys es).Nodup
  admits : ∃ place, d.Admits p place
  replaces : d.Replaces p
  load : (loadFile p).runFrom d = (.ok (members es), d)

/-- What is loaded from a data file that holds this. -/
def loaded (p : Path) : Option Content → Except Failure (Entries String Value)
  | none => .ok []
  | some (.text s) =>
    match Json.read s with
    | .ok (.table entries) => .ok entries
    | .ok _ => .error (.storage (.noTableInFile p.toText))
    | .error fault => .error (.ofReading (.storage (.unreadableFile p.toText)) fault)
  | some _ => .error .undecodable

/-- **What is loaded depends only on what the file holds**, and loading changes nothing. -/
theorem loadFile_of_place {place : List String} (h : d.filePlace p = .ok place) :
    (loadFile p).runFrom d = (loaded p (Entries.find? d.files place), d) := by
  have hget : (get : Action Disk Disk).runFrom d = (.ok d, d) := rfl
  rw [loadFile, Action.runFrom_bind, hget]
  dsimp only
  rw [Disk.has_of_filePlace h, Action.runFrom_bind, Action.runFrom_ofExcept]
  dsimp only
  rw [Disk.isFile, Entries.has]
  cases hfile : Entries.find? d.files place with
  | none => rfl
  | some c =>
    rw [Option.isSome_some, if_pos rfl, Disk.read_eq_ok.2 ⟨place, h, hfile⟩]
    cases c with
    | text s =>
      dsimp only
      rw [loaded]
      cases Json.read s with
      | error fault => rfl
      | ok v =>
        cases v with
        | _ => rfl
    | bytes bs => rfl
    | database rows => rfl

theorem loadFile_of_text {place : List String} {s : String} {entries : Entries String Value}
    (h : d.Settled p place) (hfile : Entries.find? d.files place = some (.text s))
    (hs : Json.read s = .ok (.table entries)) : (loadFile p).runFrom d = (.ok entries, d) := by
  rw [loadFile_of_place h.place, hfile, loaded, hs]

/-- **A save puts the object at the place of the file**, and makes its folder if it is missing. -/
theorem saveFile_ends {place : List String} (hp : d.Admits p place) (hr : d.Replaces p)
    (entries : Entries String Value) : (saveFile p entries).Ends d (.ok ()) fun e =>
      e.Settled p place ∧ e.Replaces p ∧
        Entries.find? e.files place = some (.text (Json.write .indented (.table entries))) := by
  have hact : (do
      Disk.makeFolder p.parent
      Disk.replace p (.text (Json.write .indented (.table entries))) : Action Disk Unit).Ends d
      (.ok ()) fun e => e.Settled p place ∧ e.Replaces p ∧
        Entries.find? e.files place = some (.text (Json.write .indented (.table entries))) := by
    refine hp.settles.bind ?_
    rintro d' ⟨hsettled, -, hfault⟩
    exact Disk.replace_ends hsettled ⟨hfault.trans hr.renames, hr.name, hr.text⟩ _
  rw [saveFile]
  refine hact.attempt.bind ?_
  intro e he
  exact Action.ends_pure he

/-- The entries that were saved are those of the file. -/
theorem saveFile_members_ends (hp : ∃ place, d.Admits p place) (hr : d.Replaces p)
    (hes : (Entries.keys es).Nodup) : (saveFile p (members es)).Ends d (.ok ()) (InFile p · es) := by
  obtain ⟨place, hplace⟩ := hp
  refine (saveFile_ends hplace hr (members es)).imp ?_
  rintro e ⟨he, hre, hfile⟩
  exact ⟨hes, ⟨place, he.admits⟩, hre, loadFile_of_text he hfile (read_fileText hes)⟩

theorem InFile.load_ends (h : InFile p d es) :
    (loadFile p).Ends d (.ok (members es)) (InFile p · es) :=
  Action.ends_iff.2 ⟨d, h.load, h⟩

/-- Loading leaves the disk alone, whatever it finds. -/
theorem loadFile_keeps (p : Path) (d : Disk) : (loadFile p).Keeps (· = d) fun _ => True := by
  have hget : (get : Action Disk Disk).Keeps (· = d) fun _ => True := fun _ h => ⟨h, trivial⟩
  have hthere : ∀ r : Except Failure Bool,
      (Action.ofExcept r : Action Disk Bool).Keeps (· = d) fun _ => True :=
    fun _ => Action.keeps_ofExcept trivial
  refine hget.bind (fun d' _ => ?_) fun _ _ => trivial
  refine (hthere (d'.has p)).bind (fun there _ => ?_) fun _ _ => trivial
  split
  · split
    · split
      · exact Action.keeps_pure trivial
      · exact Action.keeps_throw trivial
      · exact Action.keeps_throw trivial
    · exact Action.keeps_throw trivial
    · exact Action.keeps_throw trivial
  · exact Action.keeps_pure trivial

/-- A data file that lists no keys stands for no entries. -/
theorem inFile_nil (hp : ∃ place, d.Admits p place) (hr : d.Replaces p)
    (h : ((jsonFile p).keys.runFrom d).1 = .ok []) : InFile p d [] := by
  have hkeys : (jsonFile p).keys.runFrom d = (.ok [], ((jsonFile p).keys.runFrom d).2) :=
    Prod.ext h rfl
  obtain ⟨entries, d', hload, hnone⟩ := Action.exists_of_bind_ok hkeys
  obtain rfl : d' = d := by
    have hstate := (loadFile_keeps p d d rfl).1
    rwa [hload] at hstate
  have hentries : entries = [] := List.map_eq_nil_iff.1 (Except.ok.inj (congrArg Prod.fst hnone))
  refine ⟨List.nodup_nil, hp, hr, ?_⟩
  rw [hload, hentries]
  rfl

/-- **The storage in a data file keeps entries.** -/
theorem jsonFile_keepsEntries (p : Path) : KeepsEntries (jsonFile p) (pure ()) id (InFile p) where
  read {d es} k h := by
    have hfind : Entries.find? (members es) k = (Entries.find? es k).map fun names =>
        .list (ofNames names) := Entries.find?_mapValues _ es k
    refine h.load_ends.bind ?_
    intro d' h'
    rw [hfind]
    cases Entries.find? es k with
    | none => exact Action.ends_pure h'
    | some names =>
      have hrecord : recordOf k (.list (ofNames names)) = .ok (some (ofNames names)) :=
        congrArg (fun r => Except.ok (some r)) (map_toText_ofNames names)
      show (Action.ofExcept (recordOf k (.list (ofNames names)))).Ends d' _ _
      rw [hrecord]
      exact Action.ends_ofExcept _ h'
  write {d es} k names h := by
    refine h.load_ends.bind ?_
    intro d' h'
    have hput : Entries.put (members es) k (.list (ofNames names)) =
        members (Entries.put es k names) := Entries.put_mapValues _ es k names
    rw [hput]
    exact saveFile_members_ends h'.admits h'.replaces (Entries.nodup_keys_put h'.nodup k names)
  delete {d es} k h := by
    refine h.load_ends.bind ?_
    intro d' h'
    have hhas : Entries.has (members es) k = Entries.has es k := Entries.has_mapValues _ es k
    have hdrop : Entries.drop (members es) k = members (Entries.drop es k) :=
      Entries.drop_mapValues _ es k
    rw [hhas, hdrop]
    cases hk : Entries.has es k with
    | true =>
      rw [if_pos rfl]
      refine (saveFile_members_ends h'.admits h'.replaces (Entries.nodup_keys_drop h'.nodup k)).bind ?_
      intro d'' h''
      exact Action.ends_pure h''
    | false =>
      -- The file is not written, and nothing is missing in it.
      rw [if_neg Bool.false_ne_true, Entries.drop_of_has_eq_false hk]
      exact Action.ends_pure h'
  keys {d es} h := by
    refine h.load_ends.bind ?_
    intro d' h'
    rw [members, Entries.keys_mapValues]
    exact Action.ends_pure h'
  reopen {d es} h := ⟨rfl, h⟩

/-- So it acts as a map. -/
theorem jsonFile_actsAsMap (p : Path) : (jsonFile p).ActsAsMap fun d m =>
    ∃ es, InFile p d es ∧ (Entries.keys es).Nodup ∧ ∀ k, Entries.find? es k = m k :=
  (jsonFile_keepsEntries p).actsAsMap List.Perm.refl

end FileTags.Storage
