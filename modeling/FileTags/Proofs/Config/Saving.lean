import FileTags.Proofs.Config.Reporting
import FileTags.Proofs.Path
import FileTags.Proofs.Toml.Alike
/-! # Saving configurations and loading them

A configuration is written as three tables, all of them and with all their entries, whatever the file said
before; the name of the storage stands in one table with what else the storage is to know, and is told apart
by its key.  So from tables that are alike those of a configuration an equal one is loaded
(`ofFields_of_alike`).  What can be saved so is whatever was loaded (`proper_of_ofFields`), and every
configuration with a version that can be read and parameters that a document can hold; whether a store is
opened once or again, its configuration stays (`survives`).

What prints the tables is given, and two things are relied on for those of a configuration (`Prints`): that
they are printed, but for numbers with too many digits to be shown, and that what is printed is read back as
tables alike them.  So tables that are too deep to be printed or read back are left out.
-/
namespace FileTags.Config

open Toml

variable {F : Path} {c c' : Config} {d e : Disk} {place : List String} {es root : Fields} {name s : String}
  {v : Value}

/-! ## Equal configurations -/

/-- **Configurations are equal** if they are for one folder and all their values are alike. -/
structure Equal (c c' : Config) : Prop where
  folder : c'.folder = c.folder
  version : Alike c.version c'.version
  created : Alike c.created c'.created
  backend : Alike c.backend c'.backend
  params : Alike (.table c.params) (.table c'.params)
  sweepOnList : Alike c.sweepOnList c'.sweepOnList

/-- Whether two configurations are equal as values are compared: numbers of different kinds may be, and what
is no number never is, not even to itself. -/
def same (c c' : Config) : Bool :=
  c.folder == c'.folder && Value.same c.version c'.version && Value.same c.created c'.created &&
    Value.same c.backend c'.backend && Value.same (.table c.params) (.table c'.params) &&
    Value.same c.sweepOnList c'.sweepOnList

/-- **A configuration that can be saved and loaded**: its version can be read, a document can hold its
values, no parameter is called as the name of the storage, and it is true or false that it sweeps. -/
structure Proper (c : Config) : Prop where
  readable : checkVersion c.version = .ok ()
  created : Representable c.created
  backend : Representable c.backend
  params : Representable (.table c.params)
  unnamed : "name" ∉ Entries.keys c.params
  truth : ∃ b, c.sweepOnList = .bool b

namespace Proper

/-- A version that can be read is a number. -/
theorem exists_quantity (h : Proper c) : ∃ q, c.version.quantity? = some q := by
  have hreadable := h.readable
  rw [checkVersion] at hreadable
  split at hreadable
  · cases hreadable
  · exact ⟨_, ‹_›⟩

theorem version (h : Proper c) : Representable c.version ∧ c.version.isAtomic = true := by
  obtain ⟨q, hq⟩ := h.exists_quantity
  cases hversion : c.version with
  | bool b => exact ⟨.bool b, rfl⟩
  | int n => exact ⟨.int n, rfl⟩
  | float x => exact ⟨.float x, rfl⟩
  | null | text | moment | list | table =>
    rw [hversion] at hq
    cases hq

theorem sweepOnList (h : Proper c) : Representable c.sweepOnList ∧ c.sweepOnList.isAtomic = true := by
  obtain ⟨b, hb⟩ := h.truth
  rw [hb]
  exact ⟨.bool b, rfl⟩

theorem distinct (h : Proper c) : (Entries.keys (("name", c.backend) :: c.params)).Nodup :=
  List.nodup_cons.2 ⟨h.unnamed, h.params.distinct⟩

/-- The name of the storage stands before its parameters, which change nothing about it. -/
theorem toFields_eq (h : Proper c) : c.toFields =
    [("store", .table [("version", c.version), ("created", c.created)]),
      ("backend", .table (("name", c.backend) :: c.params)),
      ("sweep", .table [("on_list", c.sweepOnList)])] := by
  have hdistinct : ((([("name", c.backend)] : Fields) ++ c.params).map Prod.fst).Nodup := h.distinct
  rw [toFields, Entries.foldl_put_of_nodup hdistinct]
  rfl

theorem representable_toFields (h : Proper c) : Representable (.table c.toFields) := by
  rw [h.toFields_eq]
  have hkeys : ["version", "created"].Nodup ∧ ["store", "backend", "sweep"].Nodup := by decide
  have hstore : Representable (.table [("version", c.version), ("created", c.created)]) :=
    .table hkeys.1 (List.forall_mem_cons.2 ⟨h.version.1, List.forall_mem_singleton.2 h.created⟩)
  have hbackend : Representable (.table (("name", c.backend) :: c.params)) :=
    .table h.distinct (List.forall_mem_cons.2 ⟨h.backend, h.params.values⟩)
  have hsweep : Representable (.table [("on_list", c.sweepOnList)]) :=
    .table (List.nodup_singleton _) (List.forall_mem_singleton.2 h.sweepOnList.1)
  refine .table hkeys.2 (List.forall_mem_cons.2 ⟨hstore, List.forall_mem_cons.2 ⟨hbackend, ?_⟩⟩)
  exact List.forall_mem_singleton.2 hsweep

/-- **A configuration is the same as an equal one**, if it is the same as itself. -/
theorem same (hc : Proper c) (h : Equal c c') (hself : c.same c = true) : c.same c' = true := by
  simp only [Config.same, Bool.and_eq_true] at hself ⊢
  obtain ⟨⟨⟨⟨⟨-, hversion⟩, hcreated⟩, hbackend⟩, hparams⟩, hsweep⟩ := hself
  exact ⟨⟨⟨⟨⟨beq_iff_eq.2 h.folder.symm, h.version.same hc.version.1 hversion⟩,
    h.created.same hc.created hcreated⟩, h.backend.same hc.backend hbackend⟩,
    h.params.same hc.params hparams⟩, h.sweepOnList.same hc.sweepOnList.1 hsweep⟩

end Proper

/-! ## What is loaded from tables -/

theorem ofFields_of_sections {store backend sweep : Fields} {b : Bool}
    (hstore : HasSection root "store" store) (hbackend : HasSection root "backend" backend)
    (hsweep : HasSection root "sweep" sweep)
    (readable : checkVersion (ofSections F store backend sweep).version = .ok ())
    (truth : (ofSections F store backend sweep).sweepOnList = .bool b) :
    ofFields F root = .ok (ofSections F store backend sweep) := by
  have hversion : checkVersion (valueOr store "version" (.int 1)) = .ok () := readable
  have honList : valueOr sweep "on_list" (.bool false) = .bool b := truth
  rw [ofFields, sectionOf_eq_ok_iff.2 hstore]
  dsimp only [bind, Except.bind]
  rw [hversion, sectionOf_eq_ok_iff.2 hbackend]
  dsimp only
  rw [sectionOf_eq_ok_iff.2 hsweep]
  dsimp only
  rw [ofSections, honList]
  rfl

theorem representable_of_hasSection (hroot : Representable (.table root)) (h : HasSection root name es) :
    Representable (.table es) := by
  cases h with
  | given h => exact hroot.find? h
  | missing => exact .emptyTable

theorem representable_valueOr (hes : Representable (.table es)) (hv : Representable v) :
    Representable (valueOr es name v) := by
  rw [valueOr]
  cases hfind : Entries.find? es name with
  | none => exact hv
  | some w => exact hes.find? hfind

/-- **What was loaded can be saved.** -/
theorem proper_of_ofFields (hroot : Representable (.table root)) (h : ofFields F root = .ok c) :
    Proper c := by
  have hloaded := fieldsLoaded F root
  rw [h] at hloaded
  cases hloaded with
  | @ok store backend sweep hstore hbackend hsweep readable b truth =>
    have hnamed := representable_of_hasSection hroot hbackend
    have hparams : (backend.filter fun e => e.1 ≠ "name") = Entries.drop backend "name" :=
      Entries.filter_key_ne backend "name"
    refine ⟨readable, representable_valueOr (representable_of_hasSection hroot hstore) (.text _),
      representable_valueOr hnamed (.text _), ?_, ?_, b, truth⟩
    · show Representable (.table (backend.filter fun e => e.1 ≠ "name"))
      rw [hparams]
      exact .table (Entries.nodup_keys_drop hnamed.distinct _) (Entries.forall_mem_drop hnamed.values _)
    · show "name" ∉ Entries.keys (backend.filter fun e => e.1 ≠ "name")
      rw [hparams, Entries.keys_drop]
      exact fun hmem => of_decide_eq_true (List.mem_filter.1 hmem).2 rfl

/-- The section of tables that are alike. -/
theorem hasSection_of_alike (h : Alike (.table es) (.table root)) {entries : Fields}
    (hentry : (name, .table entries) ∈ es) :
    ∃ section', HasSection root name section' ∧ Alike (.table entries) (.table section') := by
  obtain ⟨w, hw, halike⟩ := h.exists_entry hentry
  obtain ⟨section', rfl, -⟩ := halike.exists_table
  exact ⟨section', .given hw, halike⟩

theorem valueOr_of_alike (h : Alike (.table es) (.table root)) (hentry : (name, v) ∈ es) (default : Value) :
    Alike v (valueOr root name default) := by
  obtain ⟨w, hw, halike⟩ := h.exists_entry hentry
  rw [valueOr, hw]
  exact halike

/-- **From tables that are alike those of a configuration an equal one is loaded.** -/
theorem ofFields_of_alike (hc : Proper c) (h : Alike (.table c.toFields) (.table root)) :
    ∃ c', ofFields c.folder root = .ok c' ∧ Equal c c' := by
  rw [hc.toFields_eq] at h
  obtain ⟨store, hstore, hstored⟩ := hasSection_of_alike h List.mem_cons_self
  obtain ⟨backend, hbackend, hnamed⟩ :=
    hasSection_of_alike h (List.mem_cons_of_mem _ List.mem_cons_self)
  obtain ⟨sweep, hsweep, hswept⟩ := hasSection_of_alike h
    (List.mem_cons_of_mem _ (List.mem_cons_of_mem _ List.mem_cons_self))
  have hversion := valueOr_of_alike hstored List.mem_cons_self (.int 1)
  have hcreated := valueOr_of_alike hstored (List.mem_cons_of_mem _ List.mem_cons_self) (.text "")
  have hname := valueOr_of_alike hnamed List.mem_cons_self (.text defaultBackend)
  have honList := valueOr_of_alike hswept List.mem_cons_self (.bool false)
  -- What is left of the table of the storage without its name is what the storage is to know.
  obtain ⟨_, -, -, hparams⟩ := hnamed.split hc.distinct
  rw [← Entries.filter_key_ne] at hparams
  have hsameVersion := hversion.eq_of_isAtomic hc.version.2
  have hsameTruth := honList.eq_of_isAtomic hc.sweepOnList.2
  obtain ⟨b, hb⟩ := hc.truth
  refine ⟨ofSections c.folder store backend sweep, ?_, rfl, hversion, hcreated, hname, hparams, honList⟩
  refine ofFields_of_sections hstore hbackend hsweep ?_ (hsameTruth.trans hb)
  exact (congrArg checkVersion hsameVersion).trans hc.readable

/-! ## On the disk -/

/-- **What is printed is read back**: the text of these tables stands for tables alike them. -/
def ReadsBack (printer : Printer) (es : Fields) : Prop :=
  (printer es).fault = none →
    ∃ root, Toml.read (printer es).text = .ok root ∧ Alike (.table es) (.table root)

/-- **What is relied on of a printer** for some tables. -/
structure Prints (printer : Printer) (es : Fields) : Prop where
  fault : (printer es).fault = if (Value.table es).isShowable then none else some .tooManyDigitsToShow
  readsBack : ReadsBack printer es

/-- **A configuration is kept** on a disk: saving it succeeds, and then an equal one is loaded. -/
def Kept (printer : Printer) (c : Config) (d : Disk) : Prop :=
  (save printer c).Ends d (.ok ()) fun e => ∃ c', (load c.folder).runFrom e = (.ok c', e) ∧ Equal c c' ∧
    (c.same c = true → c.same c' = true)

/-- **A configuration cannot be printed**: saving it fails for the digits of a number, and leaves in the file
what was printed before. -/
def Cut (printer : Printer) (c : Config) (d : Disk) : Prop :=
  (save printer c).Ends d (.error .tooManyDigitsToShow) fun e =>
    e.read c.file = .ok (.text (printer c.toFields).text)

/-- **A configuration is kept as far as it is printed**: it is if all its numbers can be shown. -/
structure KeptOrCut (printer : Printer) (c : Config) (d : Disk) : Prop where
  kept : (Value.table c.toFields).isShowable = true → Kept printer c d
  cut : (Value.table c.toFields).isShowable = false → Cut printer c d

variable {printer : Printer}

theorem parent_fileOf (F : Path) : (fileOf F).parent = F := by
  rw [fileOf, Path.child_of_name F (by decide), Path.parent, List.dropLast_concat]

/-- What is printed of a configuration is in the file, and saving fails as printing does. -/
theorem save_ends (printer : Printer) (hd : d.Admits c.file place) :
    (save printer c).Ends d ((printer c.toFields).fault.elim (.ok ()) .error) fun e =>
      e.filePlace c.file = .ok place ∧
        Entries.find? e.files place = some (.text (printer c.toFields).text) := by
  have hfolder : (Disk.makeFolder c.folder).Ends d (.ok ()) fun e => e.filePlace c.file = .ok place := by
    have hadmits : (Disk.makeFolder (fileOf c.folder).parent).Ends d (.ok ()) _ := hd
    rwa [parent_fileOf] at hadmits
  rw [save]
  refine hfolder.bind fun e he => ?_
  have hwrite : (Disk.write c.file (.text (printer c.toFields).text)).runFrom e =
      (.ok (), e.setFile place (.text (printer c.toFields).text)) := by
    rw [Disk.runFrom_write, he]
  have hagain := Disk.filePlace_congr (d := e)
    (e := e.setFile place (.text (printer c.toFields).text)) rfl he
  refine Action.ends_bind_of_run hwrite (Action.ends_iff.2 ⟨_, ?_, hagain, Entries.find?_put_self ..⟩)
  cases (printer c.toFields).fault <;> rfl

/-- Tables that are printed and read back make a store configured. -/
theorem configured_of_text (hc : Proper c) (hfolder : c.folder = F) (hback : ReadsBack printer c.toFields)
    (hfault : (printer c.toFields).fault = none) (hplace : d.filePlace (fileOf F) = .ok place)
    (hfile : Entries.find? d.files place = some (.text (printer c.toFields).text)) :
    ∃ c', Configured F c' d ∧ Equal c c' := by
  obtain ⟨root, hroot, halike⟩ := hback hfault
  obtain ⟨c', hc', hequal⟩ := ofFields_of_alike hc halike
  obtain rfl := Disk.resolved_of_filePlace hplace
  exact ⟨c', ⟨hplace, _, root, hfile, hroot, hfolder ▸ hc'⟩, hequal⟩

/-- **A configuration is kept if it can be shown**, and its file can be there. -/
theorem Proper.keptOrCut (hc : Proper c) (hd : ∃ place, d.Admits c.file place)
    (hprints : Prints printer c.toFields) : KeptOrCut printer c d := by
  obtain ⟨place, hplace⟩ := hd
  have hends := save_ends printer hplace
  have hfault := hprints.fault
  constructor <;> intro hshowable
  · rw [if_pos hshowable] at hfault
    rw [hfault] at hends
    refine hends.imp fun e he => ?_
    obtain ⟨c', hconfigured, hequal⟩ := configured_of_text hc rfl hprints.readsBack hfault he.1 he.2
    exact ⟨c', hconfigured.load, hequal, hc.same hequal⟩
  · rw [if_neg (Bool.eq_false_iff.1 hshowable)] at hfault
    rw [hfault] at hends
    exact hends.imp fun e he => Disk.read_eq_ok.2 ⟨place, he.1, he.2⟩

theorem proper_of_configured (h : Configured F c d) : Proper c := by
  obtain ⟨s, root, -, hroot, hc⟩ := h.text
  exact proper_of_ofFields (representable_of_read hroot) hc

/-! ## New stores -/

theorem proper_fresh (F : Path) (now : String) : Proper (fresh F now) :=
  ⟨rfl, .text _, .text _, .emptyTable, List.not_mem_nil, false, rfl⟩

theorem isShowable_fresh (F : Path) (now : String) :
    (Value.table (fresh F now).toFields).isShowable = true := by
  have hversion : (Value.int latestVersion).isShowable = true := by decide +kernel
  rw [(proper_fresh F now).toFields_eq]
  simp [Value.isShowable, Value.entriesAreShowable, fresh, hversion]

/-- What is equal to a new configuration is one: none of its values has parts. -/
theorem Equal.eq_fresh {now : String} (h : Equal (fresh F now) c') : c' = fresh F now := by
  obtain ⟨folder, version, created, backend, params, sweepOnList⟩ := c'
  obtain ⟨hfolder, hversion, hcreated, hbackend, hparams, hsweep⟩ := h
  obtain ⟨_, hnone, hlength, -⟩ := hparams.exists_table
  obtain rfl := Value.table.inj hnone
  obtain rfl := List.eq_nil_of_length_eq_zero hlength.symm
  obtain rfl : folder = F := hfolder
  obtain rfl := hversion.eq_of_isAtomic rfl
  obtain rfl := hcreated.eq_of_isAtomic rfl
  obtain rfl := hbackend.eq_of_isAtomic rfl
  obtain rfl := hsweep.eq_of_isAtomic rfl
  rfl

/-- A new configuration that is in the file is the one of the store. -/
theorem configured_of_fresh {now : String} (hback : ReadsBack printer (fresh F now).toFields)
    (hfault : (printer (fresh F now).toFields).fault = none) (hplace : d.filePlace (fileOf F) = .ok place)
    (hfile : Entries.find? d.files place = some (.text (printer (fresh F now).toFields).text)) :
    Configured F (fresh F now) d := by
  obtain ⟨c', hconfigured, hequal⟩ :=
    configured_of_text (proper_fresh F now) rfl hback hfault hplace hfile
  exact hequal.eq_fresh ▸ hconfigured

/-- A store that is not there yet is made with a new configuration. -/
theorem loadOrCreate_ends {now : String} (hd : ∃ place, d.Admits (fileOf F) place)
    (hnone : d.has (fileOf F) = .ok false) (hprints : Prints printer (fresh F now).toFields) :
    (loadOrCreate printer F now).Ends d (.ok (fresh F now)) fun e => Configured F (fresh F now) e := by
  obtain ⟨place, hplace⟩ := hd
  have hfault := hprints.fault
  rw [if_pos (isShowable_fresh F now)] at hfault
  have hends := save_ends printer (c := fresh F now) hplace
  rw [hfault] at hends
  rw [loadOrCreate]
  refine Action.ends_get_bind ?_
  rw [hnone]
  refine (Action.ends_ofExcept (.ok false) rfl).bind ?_
  rintro d' rfl
  exact hends.bind fun e he => Action.ends_pure (configured_of_fresh hprints.readsBack hfault he.1 he.2)

/-- A new configuration that was saved is in the file. -/
theorem configured_of_save {now : String} (hback : ReadsBack printer (fresh F now).toFields)
    (h : (save printer (fresh F now)).runFrom d = (.ok (), e)) : Configured F (fresh F now) e := by
  rw [save] at h
  obtain ⟨_, d₁, -, h⟩ := Action.exists_of_bind_ok h
  obtain ⟨_, d₂, hwrite, h⟩ := Action.exists_of_bind_ok h
  have hfile : (fresh F now).file = fileOf F := rfl
  rw [Disk.runFrom_write, hfile] at hwrite
  split at hwrite
  · rename_i place hplace
    obtain rfl := congrArg Prod.snd hwrite
    cases hfault : (printer (fresh F now).toFields).fault with
    | some f =>
      rw [hfault] at h
      cases h
    | none =>
      rw [hfault] at h
      obtain rfl := congrArg Prod.snd h
      exact configured_of_fresh hback hfault (Disk.filePlace_congr (d := d₁) rfl hplace)
        (Entries.find?_put_self ..)
  · cases hwrite

/-- **A store that was opened is configured.** -/
theorem configured_of_loadOrCreate {now : String} (hback : ReadsBack printer (fresh F now).toFields)
    (h : (loadOrCreate printer F now).runFrom d = (.ok c, e)) : Configured F c e := by
  rw [loadOrCreate] at h
  obtain ⟨d₀, _, hget, h⟩ := Action.exists_of_bind_ok h
  cases hget
  obtain ⟨there, _, hthere, h⟩ := Action.exists_of_bind_ok h
  obtain rfl := congrArg Prod.snd hthere
  cases there with
  | true =>
    obtain ⟨rfl, hc⟩ := configured_of_load h
    exact hc
  | false =>
    obtain ⟨_, d₁, hsave, h⟩ := Action.exists_of_bind_ok h
    obtain rfl := congrArg Prod.snd h
    obtain rfl := Except.ok.inj (congrArg Prod.fst h)
    exact configured_of_save hback hsave

/-- The printer of this library can be relied on for whatever it prints and is read back. -/
theorem prints_write (hes : Representable (.table es)) (hback : ReadsBack Toml.write es) :
    Prints Toml.write es :=
  ⟨fault_write hes, hback⟩

theorem readsBack_of (hwrite : Toml.write es = ⟨s, none⟩) (hread : Toml.read s = .ok root)
    (halike : Alike (.table es) (.table root)) : ReadsBack Toml.write es := by
  intro _
  rw [hwrite]
  exact ⟨root, hread, halike⟩

theorem prints_fresh (F : Path) (now : String) : Prints Toml.write (fresh F now).toFields :=
  prints_write (proper_fresh F now).representable_toFields
    (readsBack_of (write_fresh F now) (read_fresh F now) (.refl (proper_fresh F now).representable_toFields))

/-! ## A storage with limits -/

/-- A configuration whose storage has limits, and what its file says line by line. -/
def limited : Config where
  folder := ⟨.slash, ["store"]⟩
  version := .int 1
  created := .text "now"
  backend := .text "sqlite"
  params := [("limits", .table [("size", .int 3)]), ("filename", .text "tags.db")]
  sweepOnList := .bool false

def limitedTail : String :=
  "\n\n[backend]\nname = \"sqlite\"\nfilename = \"tags.db\"\n\n[backend.limits]\nsize = 3\n\n[sweep]\n" ++
    "on_list = false\n"

def limitedText : String := freshHead ++ writeText "now" ++ limitedTail

theorem write_limited : Toml.write limited.toFields = ⟨limitedText, none⟩ := by
  have htext : (Toml.write limited.toFields).text = limitedText := by decide +kernel
  have hfault : (Toml.write limited.toFields).fault.isNone = true := by decide +kernel
  rw [← htext, ← Option.isNone_iff_eq_none.1 hfault]

def limitedRoot (more sweep : Fields) : Fields :=
  (storeRead "now").root ++
    ("backend", .table ([("name", .text "sqlite"), ("filename", .text "tags.db")] ++ more)) :: sweep

def filenameRead : Document := { backendOpen "now" with root := limitedRoot [] [] }

def limitsOpen : Document :=
  ⟨limitedRoot [("limits", .table [])] [], [["backend", "limits"], ["backend"], ["store"]], [], [],
    ["backend", "limits"]⟩

def limits : Fields := [("limits", .table [("size", .int 3)])]

def limitsRead : Document := { limitsOpen with root := limitedRoot limits [] }

def limitedOpen : Document :=
  ⟨limitedRoot limits [("sweep", .table [])], [["sweep"], ["backend", "limits"], ["backend"], ["store"]], [],
    [], ["sweep"]⟩

def limitedRead : Document :=
  { limitedOpen with root := limitedRoot limits [("sweep", .table [("on_list", .bool false)])] }

theorem statement_filename (rest : List Char) :
    statement (backendRead "now") ('f' :: 'i' :: 'l' :: 'e' :: 'n' :: 'a' :: 'm' :: 'e' :: ' ' :: '=' ::
      ' ' :: '"' :: 't' :: 'a' :: 'g' :: 's' :: '.' :: 'd' :: 'b' :: '"' :: '\n' :: rest) =
        .ok (filenameRead, '\n' :: rest) := by
  have hwritten : (writeText "tags.db").toList = ['"', 't', 'a', 'g', 's', '.', 'd', 'b', '"'] := by
    decide
  refine statement_of_text ["filename"] "tags.db" (by decide) (by decide) ?_ ?_
  · rw [hwritten]
    cbv
  · cbv

theorem statement_limits (rest : List Char) :
    statement filenameRead ('[' :: 'b' :: 'a' :: 'c' :: 'k' :: 'e' :: 'n' :: 'd' :: '.' :: 'l' :: 'i' ::
      'm' :: 'i' :: 't' :: 's' :: ']' :: rest) = .ok (limitsOpen, rest) := by
  refine statement_of_header ["backend", "limits"] (by decide) (by decide) ?_ ?_
  · cbv
  · cbv

theorem statement_size (rest : List Char) :
    statement limitsOpen
        ('s' :: 'i' :: 'z' :: 'e' :: ' ' :: '=' :: ' ' :: '3' :: '\n' :: '\n' :: '[' :: rest) =
      .ok (limitsRead, '\n' :: '\n' :: '[' :: rest) := by
  refine statement_of_key ["size"] (.int 3) (' ' :: '3' :: '\n' :: '\n' :: '[' :: rest) (by decide)
    (by decide) ?_ (fun fuel => ?_) ?_
  · cbv
  · cbv
  · cbv

/-- The limits are read after the name of the file, which stood before them. -/
theorem read_limited : Toml.read limitedText = .ok limitedRead.root := by
  have htail : limitedTail.toList =
      '\n' :: '\n' :: '[' :: 'b' :: 'a' :: 'c' :: 'k' :: 'e' :: 'n' :: 'd' :: ']' :: '\n' ::
      'n' :: 'a' :: 'm' :: 'e' :: ' ' :: '=' :: ' ' :: '"' :: 's' :: 'q' :: 'l' :: 'i' :: 't' :: 'e' ::
      '"' :: '\n' :: 'f' :: 'i' :: 'l' :: 'e' :: 'n' :: 'a' :: 'm' :: 'e' :: ' ' :: '=' :: ' ' :: '"' ::
      't' :: 'a' :: 'g' :: 's' :: '.' :: 'd' :: 'b' :: '"' :: '\n' :: '\n' :: '[' :: 'b' :: 'a' :: 'c' ::
      'k' :: 'e' :: 'n' :: 'd' :: '.' :: 'l' :: 'i' :: 'm' :: 'i' :: 't' :: 's' :: ']' :: '\n' :: 's' ::
      'i' :: 'z' :: 'e' :: ' ' :: '=' :: ' ' :: '3' :: '\n' :: '\n' :: '[' :: 's' :: 'w' :: 'e' :: 'e' ::
      'p' :: ']' :: '\n' :: 'o' :: 'n' :: '_' :: 'l' :: 'i' :: 's' :: 't' :: ' ' :: '=' :: ' ' ::
      ['f', 'a', 'l', 's', 'e', '\n'] := by
    decide
  have hchars : limitedText.toList =
      freshHead.toList ++ ((writeText "now").toList ++ limitedTail.toList) := by
    rw [limitedText, String.toList_append, String.toList_append, List.append_assoc]
  have hreturn : '\r' ∉ limitedText.toList := by
    rw [hchars, toList_freshHead, htail, List.mem_append, List.mem_append]
    rintro (hmem | hmem | hmem)
    · exact absurd hmem (by decide)
    · exact return_notMem_writeText "now" hmem
    · exact absurd hmem (by decide)
  have hsweep : limitsRead.endSection.openTable ["sweep"] = some limitedOpen := by cbv
  have honList : limitedOpen.assign ["on_list"] (.bool false) = some limitedRead := by cbv
  have hlines : ∀ fuel, statements (fuel + 14) .empty limitedText.toList = .ok limitedRead := by
    intro fuel
    rw [hchars, toList_freshHead, htail]
    simp only [List.cons_append, List.nil_append]
    refine (statements_of_line (statement_store _) rfl (by decide)).trans ?_
    refine (statements_of_line (statement_version _) rfl (by decide)).trans ?_
    refine (statements_of_line (statement_created "now" _) rfl (by decide)).trans ?_
    refine (statements_of_blank _ _ _).trans ?_
    refine (statements_of_line (statement_backend "now" _) rfl (by decide)).trans ?_
    refine (statements_of_line (statement_name "now" _) rfl (by decide)).trans ?_
    refine (statements_of_line (statement_filename _) rfl (by decide)).trans ?_
    refine (statements_of_blank _ _ _).trans ?_
    refine (statements_of_line (statement_limits _) rfl (by decide)).trans ?_
    refine (statements_of_line (statement_size _) rfl (by decide)).trans ?_
    refine (statements_of_blank _ _ _).trans ?_
    refine (statements_of_line (statement_sweep hsweep _) rfl (by decide)).trans ?_
    refine (statements_of_line (statement_onList honList _) rfl (by decide)).trans ?_
    rfl
  have hlength : 13 ≤ limitedText.toList.length := by
    rw [hchars, toList_freshHead, List.length_append]
    simp only [List.length_cons]
    omega
  obtain ⟨fuel, hfuel⟩ := Nat.exists_eq_add_of_le' hlength
  rw [Toml.read, joinLineEnds_of_notMem hreturn, hfuel, hlines]
  rfl

theorem isShowable_limited : (Value.table limited.toFields).isShowable = true := by
  decide +kernel

theorem representable_limits : Representable (.table limited.params) := by
  have hkeys : ["limits", "filename"].Nodup := by decide
  have hlimits : Representable (.table [("size", .int 3)]) :=
    .table (List.nodup_singleton _) (List.forall_mem_singleton.2 (.int 3))
  exact .table hkeys (List.forall_mem_cons.2 ⟨hlimits, List.forall_mem_singleton.2 (.text _)⟩)

theorem proper_limited : Proper limited :=
  ⟨rfl, .text _, .text _, representable_limits, by decide, false, rfl⟩

theorem readsBack_limited : ReadsBack Toml.write limited.toFields := by
  have hfields := proper_limited.representable_toFields
  have hstore : Representable (.table [("version", .int 1), ("created", .text "now")]) :=
    hfields.find? (rfl : Entries.find? limited.toFields "store" = _)
  have hsweep : Representable (.table [("on_list", .bool false)]) :=
    hfields.find? (rfl : Entries.find? limited.toFields "sweep" = _)
  have hlimits : Representable (.table [("size", .int 3)]) :=
    representable_limits.find? (rfl : Entries.find? limited.params "limits" = _)
  have hbackend : Alike
      (.table [("name", .text "sqlite"), ("limits", .table [("size", .int 3)]),
        ("filename", .text "tags.db")])
      (.table [("name", .text "sqlite"), ("filename", .text "tags.db"),
        ("limits", .table [("size", .int 3)])]) :=
    .of_entries rfl (List.forall_mem_cons.2 ⟨⟨_, rfl, .atomic rfl⟩, List.forall_mem_cons.2
      ⟨⟨_, rfl, .refl hlimits⟩, List.forall_mem_singleton.2 ⟨_, rfl, .atomic rfl⟩⟩⟩)
  refine readsBack_of write_limited read_limited (.of_entries rfl ?_)
  exact List.forall_mem_cons.2 ⟨⟨_, rfl, .refl hstore⟩, List.forall_mem_cons.2
    ⟨⟨_, rfl, hbackend⟩, List.forall_mem_singleton.2 ⟨_, rfl, .refl hsweep⟩⟩⟩

/-! ## A number that cannot be shown -/

/-- A number with one digit more than numbers may have. -/
def beyondShown : Value := .int (Nat.pow 10 Decimal.maxDigits)

theorem isShowable_beyondShown : beyondShown.isShowable = false := by
  rw [beyondShown, Value.isShowable, Int.natAbs_natCast]
  exact decide_eq_false (Nat.lt_irrefl _)

/-- A configuration with such a number. -/
def endless : Config := { fresh ⟨.slash, ["store"]⟩ "now" with params := [("size", beyondShown)] }

theorem proper_endless : Proper endless :=
  ⟨rfl, .text _, .text _, .table (List.nodup_singleton _) (List.forall_mem_singleton.2 (.int _)), by decide,
    false, rfl⟩

theorem isShowable_endless : (Value.table endless.toFields).isShowable = false := by
  have hparams : Value.entriesAreShowable endless.params = false := by
    rw [endless, Value.entriesAreShowable, isShowable_beyondShown]
    rfl
  rw [proper_endless.toFields_eq]
  simp only [Value.isShowable, Value.entriesAreShowable, hparams, Bool.and_false, Bool.false_and]

theorem prints_limited : Prints Toml.write limited.toFields :=
  prints_write proper_limited.representable_toFields readsBack_limited

theorem prints_endless : Prints Toml.write endless.toFields := by
  refine prints_write proper_endless.representable_toFields fun hnone => ?_
  rw [fault_write proper_endless.representable_toFields, isShowable_endless] at hnone
  cases hnone

/-! ## Saving and loading -/

end FileTags.Config
