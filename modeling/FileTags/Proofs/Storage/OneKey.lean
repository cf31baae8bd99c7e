import FileTags.Proofs.Json.Values
import FileTags.Proofs.Storage.DataFile
/-! # One key or nothing

The storage in a data file reads the whole file for a change and writes the whole file anew.  What
other programs have put under other keys goes through that as it is, of whatever kind it is: a file
gives only values that come back from what is written for them (`Json.given_of_read`).  And a change
that fails, wherever it fails, has written to no file, and the file that was to replace the old one is
gone again (`saveFile_cases`).
-/
namespace FileTags.Storage

open Record (ofNames)

variable {σ : Type} {p : Path} {d d' : Disk} {k : String} {names? : Option (List String)}
  {entries entries' : Entries String Value}

/-- **A storage has changed under one key only.**  That key has these names, or no record; reading any
other key comes to what it came to before, failures included; and the other keys are listed in the
order in which they were. -/
structure ChangedAt (s : Storage σ) (k : String) (names? : Option (List String)) (t t' : σ) :
    Prop where
  here : ((s.read k).runFrom t').1 = .ok (names?.map ofNames)
  elsewhere : ∀ j, j ≠ k → ((s.read j).runFrom t').1 = ((s.read j).runFrom t).1
  order : ∃ ks ks', (s.keys.runFrom t).1 = .ok ks ∧ (s.keys.runFrom t').1 = .ok ks' ∧
    ks'.filter (· ≠ k) = ks.filter (· ≠ k) ∧ (k ∈ ks' ↔ names?.isSome = true)

/-! ## What is loaded -/

/-- Reading a key looks it up in what is loaded. -/
theorem runFrom_read (h : (loadFile p).runFrom d = (.ok entries, d)) (j : String) :
    (((jsonFile p).read j).runFrom d).1 =
      match Entries.find? entries j with
      | some v => recordOf j v
      | none => .ok none := by
  show ((loadFile p >>= fun entries => _).runFrom d).1 = _
  rw [Action.runFrom_bind, h]
  dsimp only
  cases Entries.find? entries j with
  | none => rfl
  | some v => rfl

theorem runFrom_keys (h : (loadFile p).runFrom d = (.ok entries, d)) :
    ((jsonFile p).keys.runFrom d).1 = .ok (Entries.keys entries) := by
  show ((loadFile p >>= fun entries => _).runFrom d).1 = _
  rw [Action.runFrom_bind, h]
  rfl

/-- Entries that differ under one key are read as a storage that has changed under it. -/
theorem changedAt_of_load (h : (loadFile p).runFrom d = (.ok entries, d))
    (h' : (loadFile p).runFrom d' = (.ok entries', d'))
    (hhere : Entries.find? entries' k = names?.map fun names => .list (ofNames names))
    (hfind : ∀ j, j ≠ k → Entries.find? entries' j = Entries.find? entries j)
    (horder : (Entries.keys entries').filter (· ≠ k) = (Entries.keys entries).filter (· ≠ k)) :
    ChangedAt (jsonFile p) k names? d d' where
  here := by
    rw [runFrom_read h', hhere]
    cases names? with
    | none => rfl
    | some names => exact congrArg (fun r => Except.ok (some r)) (map_toText_ofNames names)
  elsewhere j hj := by rw [runFrom_read h', runFrom_read h, hfind j hj]
  order := by
    refine ⟨_, _, runFrom_keys h, runFrom_keys h', horder, ?_⟩
    rw [Entries.mem_keys_iff, hhere, Option.isSome_map]

theorem filter_keys_put (entries : Entries String Value) (k : String) (v : Value) :
    (Entries.keys (Entries.put entries k v)).filter (· ≠ k) =
      (Entries.keys entries).filter (· ≠ k) := by
  rw [Entries.keys_put]
  split
  · rfl
  · simp

theorem filter_keys_drop (entries : Entries String Value) (k : String) :
    (Entries.keys (Entries.drop entries k)).filter (· ≠ k) =
      (Entries.keys entries).filter (· ≠ k) := by
  rw [Entries.keys_drop, List.filter_filter]
  simp

/-! ## What can be written -/

/-- **The object of a tag file can be written and read again.** -/
def Written (entries : Entries String Value) : Prop := Json.Given Json.maxDepth (.table entries)

theorem written_iff : Written entries ↔ (Entries.keys entries).Nodup ∧
    ∀ e ∈ entries, Json.Given (Json.maxDepth - 1) e.2 := by
  constructor
  · intro h
    cases h with
    | plain h => cases h
    | table hkeys h => exact ⟨hkeys, h⟩
  · rintro ⟨hkeys, h⟩
    exact .table hkeys h

theorem Written.put (h : Written entries) (k : String) (names : List String) :
    Written (Entries.put entries k (.list (ofNames names))) := by
  obtain ⟨hkeys, hvalues⟩ := written_iff.1 h
  have hnames : Json.Given 1 (.list (ofNames names)) := by
    refine .list fun v hv => ?_
    obtain ⟨name, -, rfl⟩ := List.mem_map.1 hv
    exact .text 0 name
  exact written_iff.2 ⟨Entries.nodup_keys_put hkeys k _,
    Entries.forall_mem_put hvalues k (hnames.mono (by decide))⟩

theorem Written.drop (h : Written entries) (k : String) : Written (Entries.drop entries k) := by
  obtain ⟨hkeys, hvalues⟩ := written_iff.1 h
  exact written_iff.2 ⟨Entries.nodup_keys_drop hkeys k, Entries.forall_mem_drop hvalues k⟩

/-- Whatever was loaded can be written. -/
theorem written_of_loaded {c? : Option Content} (h : loaded p c? = .ok entries) :
    Written entries := by
  have hnone : Written [] := written_iff.2 ⟨List.nodup_nil, List.forall_mem_nil _⟩
  rw [loaded.eq_def] at h
  split at h
  · rw [← Except.ok.inj h]
    exact hnone
  · split at h
    · rename_i hread
      rw [← Except.ok.inj h]
      exact Json.given_of_read hread
    · cases h
    · cases h
  · cases h

/-- A file that is not reached is not loaded, unless as none at all. -/
theorem loaded_of_loadFile (h : (loadFile p).runFrom d = (.ok entries, d')) :
    ∃ c?, loaded p c? = .ok entries := by
  cases hplace : d.filePlace p with
  | ok place =>
    rw [loadFile_of_place hplace] at h
    exact ⟨_, congrArg Prod.fst h⟩
  | error f =>
    have hread : d.read p = .error f := by
      rw [Disk.read, hplace]
      rfl
    have hget : (get : Action Disk Disk).runFrom d = (.ok d, d) := rfl
    rw [loadFile, Action.runFrom_bind, hget] at h
    dsimp only at h
    rw [Action.runFrom_bind, Action.runFrom_ofExcept] at h
    cases hhas : d.has p with
    | error f =>
      rw [hhas] at h
      cases h
    | ok there =>
      rw [hhas] at h
      dsimp only at h
      cases there with
      | true =>
        rw [if_pos rfl, hread] at h
        cases h
      | false =>
        rw [if_neg Bool.false_ne_true] at h
        exact ⟨none, congrArg Prod.fst h⟩

/-- **Loading fails, or it gives an object that can be written**; it changes nothing. -/
theorem loadFile_cases (p : Path) (d : Disk) :
    (∃ f, (loadFile p).runFrom d = (.error f, d)) ∨
      ∃ entries, Written entries ∧ (loadFile p).runFrom d = (.ok entries, d) := by
  have hkept := (loadFile_keeps p d d rfl).1
  rcases hload : (loadFile p).runFrom d with ⟨f | entries, d'⟩
  · rw [hload] at hkept
    obtain rfl : d' = d := hkept
    exact .inl ⟨f, rfl⟩
  · rw [hload] at hkept
    obtain rfl : d' = d := hkept
    obtain ⟨c?, hc⟩ := loaded_of_loadFile hload
    exact .inr ⟨entries, written_of_loaded hc, rfl⟩

/-! ## Saving -/

/-- All files hold what they held, and there are no others. -/
def SameFiles (d d' : Disk) : Prop :=
  ∀ place, Entries.find? d'.files place = Entries.find? d.files place

/-- **A save fails and leaves every file as it was, or it writes the file.** -/
theorem saveFile_cases (p : Path) (entries : Entries String Value) (d : Disk) : ∃ e, SameFiles d e ∧
    ((∃ f, (saveFile p entries).runFrom d = (.error f, e)) ∨
      ∃ place, e.filePlace p = .ok place ∧ (saveFile p entries).runFrom d =
        (.ok (), e.setFile place (.text (Json.write .indented (.table entries))))) := by
  have hfolder := Disk.confined_makeFolder p.parent d
  have hact : ∃ e, SameFiles d e ∧ ((∃ f, (do
      Disk.makeFolder p.parent
      Disk.replace p (.text (Json.write .indented (.table entries))) : Action Disk Unit).runFrom d =
        (.error f, e)) ∨ ∃ place, e.filePlace p = .ok place ∧ (do
      Disk.makeFolder p.parent
      Disk.replace p (.text (Json.write .indented (.table entries))) : Action Disk Unit).runFrom d =
        (.ok (), e.setFile place (.text (Json.write .indented (.table entries))))) := by
    rcases hmade : (Disk.makeFolder p.parent).runFrom d with ⟨f | u, d₁⟩
    · rw [hmade] at hfolder
      refine ⟨d₁, fun place => hfolder.elsewhere place List.not_mem_nil, .inl ⟨f, ?_⟩⟩
      rw [Action.runFrom_bind, hmade]
    · rw [hmade] at hfolder
      obtain ⟨e, htouched, hcases⟩ :=
        Disk.replace_cases p (.text (Json.write .indented (.table entries))) d₁
      have hsame : SameFiles d e := fun place =>
        (htouched.elsewhere place List.not_mem_nil).trans (hfolder.elsewhere place List.not_mem_nil)
      refine ⟨e, hsame, ?_⟩
      rw [Action.runFrom_bind, hmade]
      exact hcases
  obtain ⟨e, hsame, hcases⟩ := hact
  refine ⟨e, hsame, ?_⟩
  rw [saveFile, Action.runFrom_bind, Action.runFrom_attempt]
  rcases hcases with ⟨f, hrun⟩ | ⟨place, hplace, hrun⟩
  · rw [hrun]
    dsimp only
    left
    cases f with
    | system fault => exact ⟨_, rfl⟩
    | _ => exact ⟨_, rfl⟩
  · rw [hrun]
    exact .inr ⟨place, hplace, rfl⟩

/-- **What was saved is loaded**, and no other file has changed. -/
theorem load_of_saveFile (h : Written entries) (hrun : (saveFile p entries).runFrom d = (.ok (), d')) :
    (loadFile p).runFrom d' = (.ok entries, d') ∧ ∀ place, place ≠ p.resolved →
      Entries.find? d'.files place = Entries.find? d.files place := by
  obtain ⟨e, hsame, ⟨f, hfail⟩ | ⟨place, hplace, hdone⟩⟩ := saveFile_cases p entries d
  · rw [hfail] at hrun
    cases hrun
  · obtain rfl := congrArg Prod.snd (hdone.symm.trans hrun)
    have hthere := Disk.filePlace_congr (d := e)
      (e := e.setFile place (.text (Json.write .indented (.table entries)))) rfl hplace
    have hread : Json.read (Json.write .indented (.table entries)) = .ok (.table entries) :=
      Json.read_write (Json.Given.comesBack rfl h) (Nat.le_refl _)
    constructor
    · rw [loadFile_of_place hthere, Disk.setFile, Entries.find?_put_self, loaded, hread]
    · intro here hhere
      rw [Disk.setFile, Entries.find?_put, if_neg, hsame]
      rintro rfl
      exact hhere (Disk.resolved_of_filePlace hplace).symm

/-- A save that fails leaves every file as it was. -/
theorem sameFiles_of_saveFile {f : Failure} (hrun : (saveFile p entries).runFrom d = (.error f, d')) :
    SameFiles d d' := by
  obtain ⟨e, hsame, ⟨f, hfail⟩ | ⟨place, -, hdone⟩⟩ := saveFile_cases p entries d
  · obtain rfl := congrArg Prod.snd (hfail.symm.trans hrun)
    exact hsame
  · rw [hdone] at hrun
    cases hrun

/-! ## Changes -/

/-- **A data file has changed under one key only**, and no other file has. -/
structure UpdatedAt (p : Path) (k : String) (names? : Option (List String)) (d d' : Disk) : Prop
    extends ChangedAt (jsonFile p) k names? d d' where
  files : ∀ place, place ≠ p.resolved →
    Entries.find? d'.files place = Entries.find? d.files place

/-- What a change to the entries that were loaded comes to. -/
theorem updatedAt_of_saveFile (hload : (loadFile p).runFrom d = (.ok entries, d))
    (hwritten : Written entries')
    (hhere : Entries.find? entries' k = names?.map fun names => .list (ofNames names))
    (hfind : ∀ j, j ≠ k → Entries.find? entries' j = Entries.find? entries j)
    (horder : (Entries.keys entries').filter (· ≠ k) = (Entries.keys entries).filter (· ≠ k))
    (hrun : (saveFile p entries').runFrom d = (.ok (), d')) : UpdatedAt p k names? d d' := by
  obtain ⟨hload', hfiles⟩ := load_of_saveFile hwritten hrun
  exact ⟨changedAt_of_load hload hload' hhere hfind horder, hfiles⟩

theorem write_cases (p : Path) (k : String) (names : List String) (d : Disk) :
    match ((jsonFile p).write k (ofNames names)).runFrom d with
    | (.ok (), d') => UpdatedAt p k (some names) d d'
    | (.error _, d') => SameFiles d d' := by
  have hwrite : (jsonFile p).write k (ofNames names) =
      loadFile p >>= fun entries => saveFile p (Entries.put entries k (.list (ofNames names))) := rfl
  rw [hwrite, Action.runFrom_bind]
  rcases loadFile_cases p d with ⟨f, hload⟩ | ⟨entries, hwritten, hload⟩
  · rw [hload]
    exact fun _ => rfl
  · rw [hload]
    dsimp only
    rcases hrun : (saveFile p (Entries.put entries k (.list (ofNames names)))).runFrom d
      with ⟨f | u, d'⟩
    · exact sameFiles_of_saveFile hrun
    · refine updatedAt_of_saveFile hload (hwritten.put k names) (Entries.find?_put_self _ _ _)
        (fun j hj => ?_) (filter_keys_put _ _ _) hrun
      rw [Entries.find?_put, if_neg (Ne.symm hj)]

theorem delete_cases (p : Path) (k : String) (d : Disk) :
    match ((jsonFile p).delete k).runFrom d with
    | (.ok true, d') => UpdatedAt p k none d d'
    | (.ok false, d') => d' = d
    | (.error _, d') => SameFiles d d' := by
  have hdelete : (jsonFile p).delete k = loadFile p >>= fun entries =>
      if Entries.has entries k then saveFile p (Entries.drop entries k) >>= fun _ => pure true
      else pure false := rfl
  rw [hdelete, Action.runFrom_bind]
  rcases loadFile_cases p d with ⟨f, hload⟩ | ⟨entries, hwritten, hload⟩
  · rw [hload]
    exact fun _ => rfl
  · rw [hload]
    dsimp only
    by_cases hhas : Entries.has entries k = true
    · rw [if_pos hhas, Action.runFrom_bind]
      rcases hrun : (saveFile p (Entries.drop entries k)).runFrom d with ⟨f | u, d'⟩
      · exact sameFiles_of_saveFile hrun
      · have hgone : Entries.find? (Entries.drop entries k) k = none := by
          rw [Entries.find?_drop, if_pos rfl]
        refine updatedAt_of_saveFile hload (hwritten.drop k) hgone (fun j hj => ?_)
          (filter_keys_drop _ _) hrun
        rw [Entries.find?_drop, if_neg (Ne.symm hj)]
    · rw [if_neg hhas]
      rfl

/-- If nothing is in the way of a file that holds an object, it is changed. -/
theorem changes {place : List String} {s : String} (h : d.Settled p place) (hr : d.Replaces p)
    (hfile : Entries.find? d.files place = some (.text s))
    (hs : Json.read s = .ok (.table entries)) (k : String) (names : List String) :
    (((jsonFile p).write k (ofNames names)).runFrom d).1 = .ok () ∧
      (((jsonFile p).delete k).runFrom d).1 = .ok (Entries.has entries k) := by
  have hload := loadFile_of_text h hfile hs
  have hsave := fun entries => (saveFile_ends h.admits hr entries).1
  constructor
  · show ((loadFile p >>= fun entries => _).runFrom d).1 = _
    rw [Action.runFrom_bind, hload]
    exact hsave _
  · show ((loadFile p >>= fun entries => _).runFrom d).1 = _
    rw [Action.runFrom_bind, hload]
    dsimp only
    cases Entries.has entries k with
    | true =>
      have hsaved := hsave (Entries.drop entries k)
      rw [if_pos rfl, Action.runFrom_bind]
      rcases hrun : (saveFile p (Entries.drop entries k)).runFrom d with ⟨r, e⟩
      rw [hrun] at hsaved
      obtain rfl : r = .ok () := hsaved
      rfl
    | false => rfl

/-- **A data file is changed under one key or not at all.**

Whatever the file holds, and whatever is in the way of replacing it: a write or a delete that succeeds
changes what is read under its key only, whoever wrote what is under the others; one that fails leaves
every file as it was and no file behind, and a delete that finds no record leaves everything.  And both
succeed on every file that holds an object, if nothing is in the way. -/
theorem one_key_or_nothing (p : Path) (k : String) (names : List String) (d : Disk) :
    (match ((jsonFile p).write k (ofNames names)).runFrom d with
      | (.ok (), d') => UpdatedAt p k (some names) d d'
      | (.error _, d') => SameFiles d d') ∧
    (match ((jsonFile p).delete k).runFrom d with
      | (.ok true, d') => UpdatedAt p k none d d'
      | (.ok false, d') => d' = d
      | (.error _, d') => SameFiles d d') ∧
    ∀ place s entries, d.Settled p place → d.Replaces p →
      Entries.find? d.files place = some (.text s) → Json.read s = .ok (.table entries) →
      (((jsonFile p).write k (ofNames names)).runFrom d).1 = .ok () ∧
        (((jsonFile p).delete k).runFrom d).1 = .ok (Entries.has entries k) :=
  ⟨write_cases p k names d, delete_cases p k d, fun _ _ _ h hr hfile hs =>
    changes h hr hfile hs k names⟩

/-- In a file of another program, where a key comes twice and its last value is no list. -/
theorem one_key_or_nothing_in_foreign_file :
    let p : Path := ⟨.slash, ["data", "tags.json"]⟩
    let text := "\x7b\"b\": \x7b\x7d, \"k\": [\"x\"], \"b\": \"y\"\x7d"
    let d : Disk := ⟨[(["data", "tags.json"], .text text)], [["data"]], none⟩
    d.Settled p ["data", "tags.json"] ∧ d.Replaces p ∧
    Json.read text = .ok (.table [("b", .text "y"), ("k", .list [.text "x"])]) ∧
    (∃ d', ((jsonFile p).write "k" (ofNames ["z"])).runFrom d = (.ok (), d') ∧
      UpdatedAt p "k" (some ["z"]) d d') ∧
    ∃ d', ((jsonFile p).delete "k").runFrom d = (.ok true, d') ∧ UpdatedAt p "k" none d d' := by
  intro p text d
  have hsettled : d.Settled p ["data", "tags.json"] := ⟨⟨["data"], rfl, rfl, rfl⟩, rfl⟩
  have hreplaces : d.Replaces p := ⟨rfl, by decide, by decide⟩
  have hread : Json.read text = .ok (.table [("b", .text "y"), ("k", .list [.text "x"])]) := by
    subst text
    with_unfolding_all rfl
  obtain ⟨hwrite, hdelete, hboth⟩ := one_key_or_nothing p "k" ["z"] d
  obtain ⟨hwritten, hdeleted⟩ := hboth _ _ _ hsettled hreplaces rfl hread
  rcases hrun : ((jsonFile p).write "k" (ofNames ["z"])).runFrom d with ⟨r, d₁⟩
  rcases hrun' : ((jsonFile p).delete "k").runFrom d with ⟨r', d₂⟩
  rw [hrun] at hwrite hwritten
  rw [hrun'] at hdelete hdeleted
  obtain rfl : r = .ok () := hwritten
  obtain rfl : r' = .ok true := hdeleted
  exact ⟨hsettled, hreplaces, hread, ⟨d₁, rfl, hwrite⟩, d₂, rfl, hdelete⟩

end FileTags.Storage
