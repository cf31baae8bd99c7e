import FileTags.Proofs.Disk.Touches
import FileTags.Proofs.Storage.JsonFile
import FileTags.Storage.Database
/-! # What a database keeps

The storage in a database keeps entries because the text of a row is read as it was written, and
because the rows stay in the file at the place where it was opened.  Opening it once shows that it
can be opened again: the folder is there now, the path leads to the same place, and the file holds
the rows.
-/
namespace FileTags.Storage

open Record (ofNames)

variable {q : Path} {c c' : Connection} {place : List String}

/-! ## An open database -/

/-- **A database is open** at a place, where its file holds some rows. -/
structure OpenAt (q : Path) (place : List String) (shown : Rows) (c : Connection) : Prop where
  opened : c.opened = some place
  short : isTooLong q = false
  settled : c.disk.Settled q place
  file : Entries.find? c.disk.files place = some (.database (some shown))

/-- Rows are put into a database by writing its file. -/
theorem openAt_setFile {d : Disk} (hshort : isTooLong q = false) (hsettled : d.Settled q place)
    (shown : Rows) :
    OpenAt q place shown ⟨d.setFile place (.database (some shown)), some place⟩ :=
  ⟨rfl, hshort, hsettled.setFile _, Entries.find?_put_self ..⟩

namespace OpenAt

variable {shown : Rows}

theorem openPlace_ends (h : OpenAt q place shown c) :
    (openPlace q).Ends c (.ok place) (OpenAt q place shown) := by
  refine Action.ends_get_bind ?_
  rw [h.opened]
  exact Action.ends_pure h

theorem rows_ends (h : OpenAt q place shown c) (failure : RowFault → StorageFault) :
    (rows q failure).Ends c (.ok shown) (OpenAt q place shown) := by
  refine h.openPlace_ends.bind ?_
  intro c' h'
  refine Action.ends_get_bind ?_
  rw [rowsAt, h'.file]
  exact Action.ends_pure h'

theorem setRows_ends (h : OpenAt q place shown c) (shown' : Rows) :
    (setRows q shown').Ends c (.ok ()) (OpenAt q place shown') := by
  refine h.openPlace_ends.bind ?_
  intro c' h'
  have hset := openAt_setFile h'.short h'.settled shown'
  rw [← h'.opened] at hset
  exact ⟨rfl, hset⟩

/-- Closing forgets the place, and leaves the disk as it is. -/
theorem close_ends (h : OpenAt q place shown c) :
    (database q).close.Ends c
      (.ok [⟨.debug, databaseLogger, "Closed tag database " ++ q.toText⟩])
      (· = { c with opened := none }) := by
  have hset : (set { c with opened := none } : Action Connection Unit).Ends c (.ok ())
    (· = { c with opened := none }) := ⟨rfl, rfl⟩
  refine Action.ends_get_bind ?_
  rw [h.opened]
  exact hset.bind fun c' hc => Action.ends_pure hc

end OpenAt

/-! ## Opening -/

theorem onDisk_run {α : Type} (act : Action Disk α) (c : Connection) :
    (onDisk act).runFrom c =
      ((act.runFrom c.disk).1, ⟨(act.runFrom c.disk).2, c.opened⟩) := rfl

section Opening
variable {α : Type} {act : Action Connection α} {a : α}

theorem opening_ends {Q : Connection → Prop} (h : act.Ends c (.ok a) Q)
    (detail : SystemFault → String) : (opening q detail act).Ends c (.ok a) Q :=
  h.attempt.bind fun _ h' => Action.ends_pure h'

theorem run_of_opening {detail : SystemFault → String}
    (h : (opening q detail act).runFrom c = (.ok a, c')) : act.runFrom c = (.ok a, c') := by
  obtain ⟨r, c'', hrun, hnext⟩ := Action.exists_of_bind_ok h
  rw [Action.runFrom_attempt] at hrun
  have hr : (act.runFrom c).1 = r := Except.ok.inj (congrArg Prod.fst hrun)
  have hc : (act.runFrom c).2 = c'' := congrArg Prod.snd hrun
  cases r with
  | ok a' => exact Prod.ext (hr.trans (congrArg Prod.fst hnext)) (hc.trans (congrArg Prod.snd hnext))
  | error f =>
    cases f with
    | _ => cases hnext

end Opening

theorem databasePlace_ends (hshort : isTooLong q = false)
    (hplace : c.disk.filePlace q = .ok place) :
    (databasePlace q).Ends c (.ok place) (· = c) := by
  refine Action.ends_get_bind ?_
  have hknown : (Action.ofExcept (c.disk.filePlace q) : Action Connection _).Ends c (.ok place)
      (· = c) := ⟨hplace, rfl⟩
  refine hknown.bind ?_
  rintro c' hc
  rw [hshort, if_neg Bool.false_ne_true]
  exact Action.ends_pure hc

theorem place_of_databasePlace (h : (databasePlace q).runFrom c = (.ok place, c')) :
    c' = c ∧ c.disk.filePlace q = .ok place ∧ isTooLong q = false := by
  obtain ⟨_, _, hget, hrest⟩ := Action.exists_of_bind_ok h
  cases hget
  obtain ⟨place', _, hplace, hrest⟩ := Action.exists_of_bind_ok hrest
  obtain rfl := congrArg Prod.snd hplace
  have hp : c.disk.filePlace q = .ok place' := congrArg Prod.fst hplace
  cases hshort : isTooLong q with
  | true =>
    rw [hshort, if_pos rfl] at hrest
    cases hrest
  | false =>
    rw [hshort, if_neg Bool.false_ne_true] at hrest
    cases hrest
    exact ⟨rfl, hp, rfl⟩

/-- The file of a database can be opened wherever it is settled. -/
theorem openDatabase_ends {shown : Rows} (hshort : isTooLong q = false)
    (hsettled : c.disk.Settled q place)
    (hfile : Entries.find? c.disk.files place = some (.database (some shown))) :
    (openDatabase q).Ends c (.ok ()) (OpenAt q place shown) := by
  have hfolder : (onDisk (Disk.makeFolder q.parent)).Ends c (.ok ()) (· = c) := by
    refine Action.ends_iff.2 ⟨c, ?_, rfl⟩
    rw [onDisk_run, hsettled.makeFolder]
  refine (opening_ends hfolder _).bind ?_
  rintro c' hc
  obtain rfl : c' = c := hc
  refine (opening_ends (databasePlace_ends hshort hsettled.place) _).bind ?_
  rintro c'' hc
  obtain rfl : c'' = c' := hc
  refine Action.ends_get_bind ?_
  rw [rowsAt, hfile]
  exact ⟨rfl, openAt_setFile hshort hsettled shown⟩

/-- **What opening a database does**: the folder is made, and the file is written with the rows that
were in it, or with none. -/
theorem openDatabase_cases (h : (openDatabase q).runFrom c = (.ok (), c')) :
    ∃ d shown, (Disk.makeFolder q.parent).runFrom c.disk = (.ok (), d) ∧
      d.filePlace q = .ok q.resolved ∧ isTooLong q = false ∧
      (rowsAt d q.resolved = .ok shown ∨ rowsAt d q.resolved = .error .noTable) ∧
      c' = ⟨d.setFile q.resolved (.database (some shown)), some q.resolved⟩ := by
  obtain ⟨⟨⟩, c₁, hfolder, hopening⟩ := Action.exists_of_bind_ok h
  obtain ⟨place, c₂, hplace, hreading⟩ := Action.exists_of_bind_ok hopening
  obtain ⟨_, c₃, hget, hrest⟩ := Action.exists_of_bind_ok hreading
  cases hget
  obtain ⟨rfl, hp, hshort⟩ := place_of_databasePlace (run_of_opening hplace)
  obtain rfl := Disk.resolved_of_filePlace hp
  have hmade := run_of_opening hfolder
  rw [onDisk_run] at hmade
  have hresult : ((Disk.makeFolder q.parent).runFrom c.disk).1 = .ok () := congrArg Prod.fst hmade
  have hdisk : ((Disk.makeFolder q.parent).runFrom c.disk).2 = c₂.disk :=
    congrArg (fun out => out.2.disk) hmade
  refine ⟨c₂.disk, ?_⟩
  split at hrest
  · rename_i shown hrows
    exact ⟨shown, Prod.ext hresult hdisk, hp, hshort, .inl hrows, (congrArg Prod.snd hrest).symm⟩
  · rename_i hrows
    exact ⟨[], Prod.ext hresult hdisk, hp, hshort, .inr hrows, (congrArg Prod.snd hrest).symm⟩
  · cases hrest

/-- **A database that was opened is open** at the place its path leads to. -/
theorem exists_openAt (h : (openDatabase q).runFrom c = (.ok (), c')) :
    ∃ shown, OpenAt q q.resolved shown c' := by
  obtain ⟨d, shown, hmade, hp, hshort, -, rfl⟩ := openDatabase_cases h
  obtain ⟨folder, hfolder⟩ := Disk.made_of_makeFolder hmade
  exact ⟨shown, openAt_setFile hshort ⟨⟨folder, hfolder.toLeadsToFolder⟩, hp⟩ shown⟩

/-- Opening a database touches its file and the way to it only. -/
theorem touches_of_openDatabase (h : (openDatabase q).runFrom c = (.ok (), c')) :
    Disk.Touches [q.resolved] q.parent.way c.disk c'.disk := by
  obtain ⟨d, shown, hmade, hp, -, -, rfl⟩ := openDatabase_cases h
  have hfolder := Disk.confined_makeFolder q.parent c.disk
  rw [hmade] at hfolder
  exact (hfolder.mono (List.nil_subset _) (List.Subset.refl _)).trans
    ((Disk.touches_setFile (Disk.filePlace_eq_ok.1 hp).2 _).mono (List.Subset.refl _)
      (List.nil_subset _))

/-- A file that could be opened as a database was no text of more than a byte. -/
theorem size_le_of_openDatabase {s : String} (h : (openDatabase q).runFrom c = (.ok (), c'))
    (hs : Entries.find? c.disk.files q.resolved = some (.text s)) : s.utf8ByteSize ≤ 1 := by
  obtain ⟨d, shown, hmade, -, -, hrows, -⟩ := openDatabase_cases h
  have hfolder := Disk.confined_makeFolder q.parent c.disk
  rw [hmade] at hfolder
  rw [rowsAt, hfolder.find List.not_mem_nil hs] at hrows
  dsimp only [rowsOf] at hrows
  by_contra hlong
  rw [if_neg hlong] at hrows
  rcases hrows with hrows | hrows
  · cases hrows
  · cases hrows

/-! ## Rows as records -/

/-- The rows that entries are kept as. -/
def rowsFor (es : Entries String (List String)) : Rows :=
  Entries.mapValues (fun names => Json.write .compact (.list (ofNames names))) es

/-- **A row is read as it was written.** -/
theorem recordOfRow_write (key : String) (names : List String) :
    recordOfRow key (Json.write .compact (.list (ofNames names))) = .ok (ofNames names) := by
  have hread : Json.read (Json.write .compact (.list (ofNames names))) = .ok (.list (ofNames names)) :=
    Json.read_write (comesBack_ofNames rfl names) (by decide)
  rw [recordOfRow, hread]
  exact congrArg Except.ok (map_toText_ofNames names)

/-- **An open database stands for entries**: its rows are theirs. -/
def InDatabase (q : Path) (c : Connection) (es : Entries String (List String)) : Prop :=
  ∃ place, OpenAt q place (rowsFor es) c

/-- How a database lists keys. -/
def inOrder (ks : List String) : List String := ks.mergeSort fun k l => k ≤ l

theorem perm_inOrder (ks : List String) : (inOrder ks).Perm ks := List.mergeSort_perm ks _

/-- Keys of which no two are the same are listed in ascending order of their characters. -/
theorem inOrder_sorted {ks : List String} (h : ks.Nodup) : (inOrder ks).Pairwise (· < ·) := by
  refine pairwise_lt_mergeSort (fun k => k) ?_
  rwa [List.map_id']

/-- A database that lists no keys once it was opened stands for no entries. -/
theorem inDatabase_nil (hopen : (openDatabase q).runFrom c = (.ok (), c'))
    (h : ((database q).keys.runFrom c').1 = .ok []) : InDatabase q c' [] := by
  obtain ⟨shown, hat⟩ := exists_openAt hopen
  have hkeys : (database q).keys.Ends c' (.ok (inOrder (Entries.keys shown))) fun _ => True :=
    (hat.rows_ends _).bind fun c'' _ => Action.ends_pure trivial
  have hnone : inOrder (Entries.keys shown) = [] := Except.ok.inj (hkeys.1.symm.trans h)
  have hempty : shown = [] :=
    List.map_eq_nil_iff.1 (List.Perm.nil_eq (hnone ▸ perm_inOrder (Entries.keys shown))).symm
  rw [hempty] at hat
  exact ⟨_, hat⟩

/-- **The storage in a database keeps entries**, and lists the keys in order. -/
theorem database_keepsEntries (q : Path) :
    KeepsEntries (database q) (openDatabase q) inOrder (InDatabase q) where
  read {c es} k := by
    rintro ⟨place, h⟩
    have hfind : Entries.find? (rowsFor es) k = (Entries.find? es k).map fun names =>
        Json.write .compact (.list (ofNames names)) := Entries.find?_mapValues _ es k
    refine (h.rows_ends _).bind ?_
    intro c' h'
    rw [hfind]
    cases Entries.find? es k with
    | none => exact Action.ends_pure ⟨place, h'⟩
    | some names =>
      have hrecord : (Action.ofExcept (recordOfRow k (Json.write .compact (.list (ofNames names)))) :
          Action Connection _).Ends c' (.ok (ofNames names)) (OpenAt q place (rowsFor es)) := by
        rw [recordOfRow_write]
        exact Action.ends_ofExcept _ h'
      exact hrecord.bind fun c'' h'' => Action.ends_pure ⟨place, h''⟩
  write {c es} k names := by
    rintro ⟨place, h⟩
    refine (h.rows_ends _).bind ?_
    intro c' h'
    have hput : Entries.put (rowsFor es) k (Json.write .compact (.list (ofNames names))) =
        rowsFor (Entries.put es k names) := Entries.put_mapValues _ es k names
    rw [hput]
    exact (h'.setRows_ends _).imp fun c'' h'' => ⟨place, h''⟩
  delete {c es} k := by
    rintro ⟨place, h⟩
    have hhas : Entries.has (rowsFor es) k = Entries.has es k := Entries.has_mapValues _ es k
    have hdrop : Entries.drop (rowsFor es) k = rowsFor (Entries.drop es k) :=
      Entries.drop_mapValues _ es k
    refine (h.rows_ends _).bind ?_
    intro c' h'
    rw [hhas, hdrop]
    exact (h'.setRows_ends _).bind fun c'' h'' => Action.ends_pure ⟨place, h''⟩
  keys {c es} := by
    rintro ⟨place, h⟩
    refine (h.rows_ends _).bind ?_
    intro c' h'
    rw [rowsFor, Entries.keys_mapValues]
    exact Action.ends_pure ⟨place, h'⟩
  reopen {c es} := by
    rintro ⟨place, h⟩
    refine h.close_ends.bind ?_
    rintro c' rfl
    have hopen : (openDatabase q).Ends { c with opened := none } (.ok ())
      (OpenAt q place (rowsFor es)) := openDatabase_ends h.short h.settled h.file
    exact hopen.imp fun c' h' => ⟨place, h'⟩

/-- So it acts as a map. -/
theorem database_actsAsMap (q : Path) : (database q).ActsAsMap fun c m =>
    ∃ es, InDatabase q c es ∧ (Entries.keys es).Nodup ∧ ∀ k, Entries.find? es k = m k :=
  (database_keepsEntries q).actsAsMap perm_inOrder

end FileTags.Storage
