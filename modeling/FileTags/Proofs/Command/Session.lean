import FileTags.Proofs.Command.Calls
import FileTags.Proofs.Command.Opening
/-! # Commands as one session

Commands that are run one after another on a store do as one tagger does that is kept open
(`asOneSession`): each has the result of the corresponding call, prints what it was told, and leaves the
same in the data file.  All that one command leaves to the next is the disk and the options that were set,
and all that the next takes from these is that the store is ready and what its data file holds (`step`):
every command line sets the options anew that have a say in it (`Uses.asData_options`,
`Uses.store_options`).

A command that fails as nobody expected writes down why, and so does one whose answer cannot be printed.
The file that it writes to has to be apart from the data file, or the next command finds the report in
place of the records (`not_asOneSession`).
-/
namespace FileTags.Command

open FileTags.Disk FileTags.Storage FileTags.Config

/-! ## What a medium gives -/

section Medium
variable {σ τ α : Type} {m : Medium} {p : Path} {x : Option Content} {t : Tagger Host} {w : World Host}

theorem Gives.zoom {P : α → Prop} {act : Action σ α} (h : Gives P act) (get : τ → σ) (set : σ → τ → τ) :
    Gives P (act.zoom get set) := fun s a ha => h (get s) a ha

theorem isTexts_map (items : List Value) :
    IsTexts (items.map fun v => .text v.toText) :=
  ⟨items.map Value.toText, by rw [Record.ofNames, List.map_map]; rfl⟩

theorem readsTexts_jsonFile (p : Path) : ReadsTexts (jsonFile p) := by
  intro k
  refine gives_last fun entries => ?_
  cases Entries.find? entries k with
  | none => exact gives_pure nofun
  | some v =>
    intro d record? hrecord record hsome
    cases v with
    | list items =>
      obtain rfl := Except.ok.inj hrecord
      obtain rfl := Option.some.inj hsome
      exact isTexts_map items
    | null =>
      obtain rfl := Except.ok.inj hrecord
      cases hsome
    | bool | int | float | text | moment | table => cases hrecord

theorem readsTexts_database (p : Path) : ReadsTexts (database p) := by
  intro k
  refine gives_last fun rows => ?_
  cases Entries.find? rows k with
  | none => exact gives_pure nofun
  | some text =>
    have hrecord : Gives IsTexts (Action.ofExcept (recordOfRow k text) : Action Connection Record) := by
      intro c record hrecord
      rw [Action.runFrom_ofExcept, recordOfRow] at hrecord
      split at hrecord
      · rename_i items _
        obtain rfl := Except.ok.inj hrecord
        exact isTexts_map items
      · cases hrecord
      · cases hrecord
    exact hrecord.bind fun record htexts => gives_pure fun _ hsome => Option.some.inj hsome ▸ htexts

/-- **The records in a data file are read as lists of texts.** -/
theorem readsTexts (hp : m.dataFile? = some p) : ReadsTexts m.storage := by
  cases m with
  | memory | foreign => cases hp
  | jsonFile q => exact fun k => (readsTexts_jsonFile q k).zoom _ _
  | database q => exact fun k => (readsTexts_database q k).zoom _ _

/-- Closing a tagger leaves the disk as it is. -/
theorem close_ends (ht : t.storage = m.storage) (hx : m.Shows x w.state) :
    t.close.Ends w (.ok ()) fun w' => w'.state.disk = w.state.disk := by
  have hclose : ∃ messages, (World.onState m.storage.close).Ends w (.ok messages) fun w' =>
      w'.state.disk = w.state.disk := by
    cases m with
    | memory | foreign => exact hx.elim
    | jsonFile q => exact ⟨[], rfl, rfl⟩
    | database q =>
      obtain ⟨rows, -, hat⟩ := hx
      have hends : ((database q).close.zoom Host.connection Host.setConnection).Ends w.state
          (.ok [⟨.debug, databaseLogger, "Closed tag database " ++ q.toText⟩])
          fun h' => h'.disk = w.state.disk := by
        refine hat.close_ends.zoom.imp ?_
        rintro h' ⟨c, rfl, rfl⟩
        rfl
      exact ⟨_, World.ends_onState hends⟩
  rw [Tagger.close, ht]
  obtain ⟨messages, hclose⟩ := hclose
  exact hclose.bind fun w' hw' => ⟨rfl, hw'⟩

end Medium

/-! ## Failures that are written down -/

section ErrorLog
variable {named : Option String} {homes : Homes} {log : Path} {s : Setting} {f : Failure} {w : World Host}

theorem exists_folder_of_path (h : ErrorLog.path named homes = .ok log) :
    ∃ folder : Path, log = folder.child ErrorLog.fileName := by
  have hhome : ErrorLog.path.atHome homes = .ok log → ∃ folder : Path,
      log = folder.child ErrorLog.fileName := by
    intro hlog
    rw [ErrorLog.path.atHome] at hlog
    cases hexpand : (Path.parse "~").expandHome homes with
    | error f =>
      rw [hexpand] at hlog
      cases hlog
    | ok folder =>
      rw [hexpand] at hlog
      exact ⟨_, (Except.ok.inj hlog).symm⟩
  cases named with
  | none => exact hhome h
  | some folder =>
    rw [ErrorLog.path] at h
    split at h
    · exact hhome h
    · exact ⟨_, (Except.ok.inj h).symm⟩

/-- No failure is written down in the place of a configuration. -/
theorem fileOf_ne_errorLog (h : ErrorLog.path named homes = .ok log) (F : Path) :
    (Config.fileOf F).resolved ≠ log.resolved := by
  obtain ⟨folder, rfl⟩ := exists_folder_of_path h
  rw [resolved_fileOf, resolved_child folder (by decide) (by decide)]
  intro heq
  have hlast := congrArg List.getLast? heq
  rw [List.getLast?_concat, List.getLast?_concat] at hlast
  exact absurd hlast (by decide)

/-- Writing down a failure touches the log and the way to it only. -/
theorem confined_append (log : Path) (r : ErrorLog.Report) :
    Confined [log.resolved] log.parent.way (ErrorLog.append log r) := by
  refine (confined_inFolder log.parent (confined_get.bind fun d => ?_)).attempt.bind fun _ =>
    confined_pure _ _ _
  split
  · exact confined_write log _
  · exact confined_write log _

namespace Setting

/-- A command leaves a disk as it was, or with a report of a failure in its error log. -/
def Reports (s : Setting) (d e : Disk) : Prop :=
  e = d ∨ ∃ log, ErrorLog.path s.named s.surroundings.homes = .ok log ∧
    Touches [log.resolved] log.parent.way d e

/-- The error log is apart from a file. -/
def LogsApart (s : Setting) (p : Path) : Prop :=
  ∀ log, ErrorLog.path s.named s.surroundings.homes = .ok log → p.Apart log

variable {F p : Path} {m : Medium} {sweeps : Bool} {d e : Disk} {x : Option Content}

theorem reports_recordFailure (s : Setting) (f : Failure) (w : World Host) :
    s.Reports w.state.disk ((recordFailure s f).runFrom w).2.state.disk := by
  rw [recordFailure]
  cases hlog : ErrorLog.path s.named s.surroundings.homes with
  | error fault => exact .inl rfl
  | ok log => exact .inr ⟨log, hlog, confined_append log _ w.state.disk⟩

/-- **A report changes neither the store nor its data file**, if it is apart from that. -/
theorem Reports.keeps (h : s.Reports d e) (hapart : s.LogsApart p) (hp : m.dataFile? = some p)
    (hready : Ready F m sweeps d) (hx : m.Holds x d) : Ready F m sweeps e ∧ m.Holds x e := by
  obtain rfl | ⟨log, hlog, ht⟩ := h
  · exact ⟨hready, hx⟩
  · obtain ⟨habove, hway⟩ := hapart log hlog
    refine ⟨hready.touched ht fun hmem => ?_, hx.touched hp ht (fun here hhere hmem => ?_) ?_⟩
    · exact fileOf_ne_errorLog hlog F (List.mem_singleton.1 hmem)
    · exact hway (List.mem_singleton.1 hmem ▸ hhere)
    · exact fun hmem => habove (Path.mem_way_of_parent hmem)

end Setting

end ErrorLog

/-! ## Options -/

namespace OptionState

variable {o o' : OptionState} {calls : List OptionCall}

theorem asData_take (c : OptionCall) (h : o.asData = o'.asData) :
    (o.take c).asData = (o'.take c).asData := by
  cases c with
  | asData on => rfl
  | verbose | store => exact h

theorem store_take (c : OptionCall) (h : o.store = o'.store) :
    (o.take c).store = (o'.take c).store := by
  cases c with
  | store folder => rfl
  | verbose | asData => exact h

section Foldl
variable {β : Type} (get : OptionState → β)
  (htake : ∀ {o o' : OptionState} (c : OptionCall), get o = get o' → get (o.take c) = get (o'.take c))
include htake

theorem foldl_congr (calls : List OptionCall) (h : get o = get o') :
    get (calls.foldl take o) = get (calls.foldl take o') := by
  induction calls generalizing o o' with
  | nil => exact h
  | cons c calls ih => exact ih (htake c h)

/-- **An option that a call sets is what the calls make it**, whatever it was before. -/
theorem foldl_of_mem {c : OptionCall} (hc : c ∈ calls)
    (hset : ∀ o o' : OptionState, get (o.take c) = get (o'.take c)) (o o' : OptionState) :
    get (calls.foldl take o) = get (calls.foldl take o') := by
  obtain ⟨before, after, rfl⟩ := List.append_of_mem hc
  rw [List.foldl_append, List.foldl_append, List.foldl_cons, List.foldl_cons]
  exact foldl_congr get htake after (hset _ _)

end Foldl

end OptionState

/-! ## One command -/

/-- A command line that asks for something to be done. -/
structure Invocation where
  setting : Setting
  words : List String
  calls : List OptionCall
  request : Request
  accepted : setting.parser words = ⟨calls, .work request⟩

namespace Invocation

variable (i : Invocation)

/-- The options that the command goes by, after those that were set before it. -/
def options (o : OptionState) : OptionState := i.calls.foldl OptionState.take o

/-- The options that are set by the command line alone. -/
def own : OptionState := i.options {}

/-- The end of the command, which starts from a disk. -/
def run (o : OptionState) (d : Disk) : Finished := Command.run i.setting i.words o d

/-- The world that the command starts in. -/
def world (o : OptionState) (d : Disk) : World Host := ⟨⟨d, none, []⟩, startLog (i.options o).verbose⟩

/-- The folder of the store that the command is for. -/
def folder : Except Failure Path := i.setting.folder i.own.store

/-- The medium of the store, as it is configured on a disk. -/
def mediumOn (d : Disk) : Except Failure Medium := i.setting.mediumOn i.own.store d

/-- The file that the store keeps its records in, if they are in one. -/
def dataFile? (d : Disk) : Option Path := (i.mediumOn d).toOption.bind Medium.dataFile?

/-- How the command opens its store. -/
def opens : Action (World Host) (Tagger Host) := i.setting.openStore i.own.store

/-- What the command asks of a tagger that is kept open; which files are there is seen at the time. -/
def call (t : Tagger Host) : Action (World Host) Told :=
  i.request.calls { t with isAlive := i.setting.isAlive }

/-- **A command does as a call**: it leaves the same in the data file, prints what the call told in the
form that its own options ask for, and its status says whether the call failed, or else whether the
answer could not be printed. -/
structure DoesAs (p : Path) (f : Finished) (r : Except Failure Told) (w : World Host) : Prop where
  stored : Entries.find? f.disk.files p.resolved = Entries.find? w.state.disk.files p.resolved
  answered : ∀ told, r = .ok told → ∃ messages, i.request.shown i.own.asData told = .ok messages ∧
    f.outcome.output = (i.setting.printed messages).text ∧
    f.outcome.status = if (i.setting.printed messages).fault.isSome then 1 else 0
  failed : ∀ fault, r = .error fault → f.outcome.status = 1 ∧ f.outcome.output = ""

/-- **A command uses a store**: it finds what the others find, and the reader of its command line calls
for every option, with the default if the line does not give it. -/
structure Uses (S : Surroundings) (F : Path) : Prop where
  surroundings : i.setting.surroundings = S
  folder : i.folder = .ok F
  asData : ∃ on, .asData on ∈ i.calls
  store : ∃ folder, .store folder ∈ i.calls

end Invocation

section Perform
variable {s : Setting} {expected : Failure → Bool} {α : Type} {act : Action (World Host) α}
  {w w' : World Host} {m : Medium} {x : Option Content} {t : Tagger Host} {options : OptionState}
  {request : Request} {f : Failure}

theorem runFrom_reporting_ok {a : α} (h : act.runFrom w = (.ok a, w')) :
    (reporting s expected act).runFrom w = (.ok (some a), w') := by
  rw [reporting, Action.runFrom_bind, Action.runFrom_attempt, h]
  rfl

/-- A failure is told or passed on, and nothing but the log changes. -/
theorem runFrom_reporting_error (s : Setting) (expected : Failure → Bool)
    (h : act.runFrom w = (.error f, w')) :
    ∃ r log, (reporting s expected act).runFrom w = (r, ⟨w'.state, log⟩) ∧
      (r = .ok none ∨ r = .error f) := by
  rw [reporting, Action.runFrom_bind, Action.runFrom_attempt, h]
  dsimp only
  split
  · exact ⟨_, _, rfl, .inl rfl⟩
  · exact ⟨_, _, rfl, .inr rfl⟩

/-- **The store is closed however a request ends.** -/
theorem perform_of_reporting {r : Except Failure (Option (List String))} {w₁ w₂ : World Host}
    (hopen : (s.openStore options.store).runFrom w = (.ok t, w₁))
    (hanswer : (reporting s (expects request) (answer t options.asData request)).runFrom w₁ = (r, w₂))
    (ht : t.storage = m.storage) (hx : m.Shows x w₂.state) :
    (perform s options request).Ends w r fun w' => w'.state.disk = w₂.state.disk := by
  have hattempt : (reporting s (expects request) (answer t options.asData request)).attempt.runFrom w₁ =
      (.ok r, w₂) := by rw [Action.runFrom_attempt, hanswer]
  refine Action.ends_bind_of_run (runFrom_reporting_ok hopen) ?_
  refine Action.ends_bind_of_run hattempt ?_
  exact (close_ends ht hx).bind fun w₃ hw₃ => Action.ends_ofExcept r hw₃

end Perform

namespace Invocation

variable {i : Invocation} {S : Surroundings} {F p : Path} {m : Medium} {sweeps : Bool} {d e : Disk}
  {w w₁ : World Host} {o : OptionState}

/-- No option of an earlier command has a say in the form of the answer. -/
theorem Uses.asData_options (h : i.Uses S F) (o : OptionState) : (i.options o).asData = i.own.asData := by
  obtain ⟨on, hon⟩ := h.asData
  exact OptionState.foldl_of_mem OptionState.asData OptionState.asData_take hon (fun _ _ => rfl) o {}

/-- No option of an earlier command has a say in which store is used. -/
theorem Uses.store_options (h : i.Uses S F) (o : OptionState) : (i.options o).store = i.own.store := by
  obtain ⟨folder, hfolder⟩ := h.store
  exact OptionState.foldl_of_mem OptionState.store OptionState.store_take hfolder (fun _ _ => rfl) o {}

theorem DoesAs.status_of_isOk {f : Finished} {r : Except Failure Told} (h : i.DoesAs p f r w)
    (hr : r.isOk = true) (hprints : ∀ messages, (i.setting.printed messages).fault = none) :
    f.outcome.status = 0 := by
  cases r with
  | error fault => cases hr
  | ok told =>
    obtain ⟨messages, -, -, hstatus⟩ := h.answered told rfl
    rw [hstatus, hprints]
    rfl

theorem exists_medium (h : i.dataFile? d = some p) :
    ∃ m, i.mediumOn d = .ok m ∧ m.dataFile? = some p := by
  rw [dataFile?] at h
  cases hm : i.mediumOn d with
  | error f =>
    rw [hm] at h
    cases h
  | ok m =>
    rw [hm] at h
    exact ⟨m, rfl, h⟩

theorem run_eq (i : Invocation) (o : OptionState) (d : Disk) :
    i.run o d = runRequest i.setting (i.options o) i.request d := by
  rw [run, Command.run, i.accepted]
  rfl

/-- A command with an answer prints it, and leaves a report if that cannot be done. -/
theorem run_of_answer {messages : List String}
    (h : (perform i.setting (i.options o) i.request).Ends (i.world o d) (.ok (some messages))
      fun w => w.state.disk = e) :
    (i.run o d).outcome.output = (i.setting.printed messages).text ∧
      (i.run o d).outcome.status = (if (i.setting.printed messages).fault.isSome then 1 else 0) ∧
      i.setting.Reports e (i.run o d).disk := by
  obtain ⟨w, hrun, rfl⟩ := Action.ends_iff.1 h
  rw [world] at hrun
  rw [run_eq, runRequest, hrun]
  dsimp only
  cases (i.setting.printed messages).fault with
  | none => exact ⟨rfl, rfl, .inl rfl⟩
  | some f => exact ⟨rfl, rfl, i.setting.reports_recordFailure f w⟩

/-- A command without an answer leaves a report at most. -/
theorem run_of_failure {f : Failure} {r : Except Failure (Option (List String))}
    (h : (perform i.setting (i.options o) i.request).Ends (i.world o d) r fun w => w.state.disk = e)
    (hr : r = .ok none ∨ r = .error f) :
    (i.run o d).outcome.status = 1 ∧ (i.run o d).outcome.output = "" ∧
      i.setting.Reports e (i.run o d).disk := by
  obtain ⟨w, hrun, rfl⟩ := Action.ends_iff.1 h
  rw [world] at hrun
  rw [run_eq, runRequest, hrun]
  rcases hr with rfl | rfl
  · exact ⟨rfl, rfl, .inl rfl⟩
  · exact ⟨rfl, rfl, i.setting.reports_recordFailure f w⟩

/-- **A command does as the call of a session** that shows the same, and leaves the same, with the store
ready for the next command. -/
theorem step (hp : m.dataFile? = some p) (hi : i.Uses S F) (hapart : i.setting.LogsApart p)
    (hopen : i.opens.runFrom (i.world o d) = (.ok ⟨m.storage, S, sweeps, i.setting.isAlive⟩, w₁))
    (hbeside : m.Beside (Ready F m sweeps) w₁ w) (isAlive : String → Except Failure Bool) :
    let called := (i.call ⟨m.storage, S, sweeps, isAlive⟩).runFrom w
    i.DoesAs p (i.run o d) called.1 called.2 ∧ Ready F m sweeps (i.run o d).disk ∧
      ∃ x, m.Holds x (i.run o d).disk ∧ m.Shows x called.2.state := by
  intro called
  have hcalls := parallel_calls (m.linked (keeps_ready m F sweeps)) S sweeps i.setting.isAlive i.request
    w₁ w hbeside
  change _ = called.1 ∧ m.Beside _ _ called.2 at hcalls
  rcases hcall : (i.request.calls ⟨m.storage, S, sweeps, i.setting.isAlive⟩).runFrom w₁ with ⟨r, w₂⟩
  rw [hcall] at hcalls
  obtain ⟨hresult, x, ⟨hx, hready⟩, hx'⟩ := hcalls
  rw [← hresult]
  rw [opens, ← hi.store_options o] at hopen
  have hanswer : (answer ⟨m.storage, S, sweeps, i.setting.isAlive⟩ (i.options o).asData
      i.request).runFrom w₁ = (r >>= i.request.shown i.own.asData, w₂) := by
    rw [hi.asData_options, answer_eq, Action.runFrom_bind, hcall]
    cases r <;> rfl
  have hkeeps := fun hreports : i.setting.Reports w₂.state.disk (i.run o d).disk =>
    hreports.keeps hapart hp hready hx.holds
  cases r with
  | ok told =>
    have htexts : told.OfTexts := calls_gives (t := ⟨m.storage, S, sweeps, i.setting.isAlive⟩)
      (readsTexts hp) i.request w₁ told (congrArg Prod.fst hcall)
    obtain ⟨messages, hshown⟩ := exists_shown htexts i.request i.own.asData
    change _ = (i.request.shown i.own.asData told, w₂) at hanswer
    rw [hshown] at hanswer
    obtain ⟨hprinted, hstatus, hreports⟩ :=
      run_of_answer (perform_of_reporting hopen (runFrom_reporting_ok hanswer) rfl hx)
    obtain ⟨hready', hholds⟩ := hkeeps hreports
    refine ⟨⟨?_, ?_, nofun⟩, hready', x, hholds, hx'⟩
    · exact (hholds.file hp).trans (hx'.holds.file hp).symm
    · rintro told' htold
      obtain rfl := Except.ok.inj htold
      exact ⟨messages, hshown, hprinted, hstatus⟩
  | error f =>
    obtain ⟨r, log, hreport, hr⟩ := runFrom_reporting_error i.setting (expects i.request)
      (show _ = (Except.error f, w₂) from hanswer)
    obtain ⟨hstatus, hprinted, hreports⟩ :=
      run_of_failure (perform_of_reporting hopen hreport rfl hx) hr
    obtain ⟨hready', hholds⟩ := hkeeps hreports
    refine ⟨⟨?_, nofun, ?_⟩, hready', x, hholds, hx'⟩
    · exact (hholds.file hp).trans (hx'.holds.file hp).symm
    · exact fun _ _ => ⟨hstatus, hprinted⟩

end Invocation

/-! ## Any number of commands -/

open Invocation

/-- **Commands do as one session**: run on a disk one after another, each with the options that were set
before it, each does as its call, made of one tagger in the world that the calls before it left. -/
def AsOneSession (p : Path) (t : Tagger Host) : List Invocation → OptionState → Disk → World Host → Prop
  | [], _, _, _ => True
  | i :: is, o, d, w =>
    let called := (i.call t).runFrom w
    let finished := i.run o d
    i.DoesAs p finished called.1 called.2 ∧ AsOneSession p t is finished.options finished.disk called.2

/-- A data file has no half of a pair of surrogates in it, which no text of this library has. -/
def Whole : Option Content → Prop
  | some (.text s) => Json.read s ≠ .error .halfPair
  | some (.database (some rows)) => ∀ row ∈ rows, Json.read row.2 ≠ .error .halfPair
  | _ => True

/-- **A session starts with a command**: a tagger is opened as the command opens its store, which keeps
its records in a file that can be used. -/
structure Starts (i : Invocation) (o : OptionState) (d : Disk) (p : Path) (t : Tagger Host)
    (w : World Host) : Prop where
  opened : i.opens.runFrom (i.world o d) = (.ok t, w)
  dataFile : i.dataFile? d = some p
  whole : Whole (Entries.find? d.files p.resolved)
  clear : ∀ q, i.mediumOn d = .ok (.jsonFile q) → Clear w.state.disk q
  /-- The text of a new configuration would be read back. -/
  readsBack : ∀ F, i.folder = .ok F → ReadsBack i.setting.printer (Config.fresh F i.setting.now).toFields

section AsOneSession
variable {S : Surroundings} {F p : Path} {m : Medium} {sweeps : Bool} {is : List Invocation}
  {isAlive : String → Except Failure Bool} {d : Disk} {w : World Host} {x : Option Content}
  {o : OptionState}

/-- Commands on a store that is ready do as a session that shows the same. -/
theorem asOneSession_of_ready (hp : m.dataFile? = some p) (his : ∀ i ∈ is, i.Uses S F)
    (hapart : ∀ i ∈ is, i.setting.LogsApart p) (hready : Ready F m sweeps d) (hx : m.Holds x d)
    (hx' : m.Shows x w.state) : AsOneSession p ⟨m.storage, S, sweeps, isAlive⟩ is o d w := by
  induction is generalizing o d w x with
  | nil => trivial
  | cons i is ih =>
    obtain ⟨hi, hrest⟩ := List.forall_mem_cons.1 his
    obtain ⟨hiapart, hrestapart⟩ := List.forall_mem_cons.1 hapart
    have hopens : i.opens.Ends (i.world o d) _ _ := hready.openStore (w := i.world o d) hx hi.folder hp
    obtain ⟨w₁, hopen, hshows, hready₁⟩ := Action.ends_iff.1 hopens
    rw [hi.surroundings] at hopen
    obtain ⟨hdoes, hready', x', hholds, hshows'⟩ :=
      step hp hi hiapart hopen ⟨x, ⟨hshows, hready₁⟩, hx'⟩ isAlive
    exact ⟨hdoes, ih hrest hrestapart hready' hholds hshows'⟩

/-- **Commands that are run one after another do as one tagger that is kept open**, whatever options were
set before, provided that the log files are apart from the data file. -/
theorem asOneSession {i : Invocation} {t : Tagger Host} (his : ∀ j ∈ i :: is, j.Uses S F)
    (hapart : ∀ j ∈ i :: is, j.setting.LogsApart p) (hlog : p.Apart (F.child Backend.opsLogName))
    (hstart : Starts i o d p t w) : AsOneSession p t (i :: is) o d w := by
  obtain ⟨hi, hrest⟩ := List.forall_mem_cons.1 his
  obtain ⟨hiapart, hrestapart⟩ := List.forall_mem_cons.1 hapart
  obtain ⟨m, hm, hfile⟩ := exists_medium hstart.dataFile
  have hopen := hstart.opened
  have hback := hstart.readsBack F hi.folder
  obtain ⟨sweeps, rfl, hready⟩ := Setting.ready_of_openStore hback hopen hi.folder hm hfile
  obtain ⟨x, hx⟩ : ∃ x, m.Shows x w.state := by
    cases m with
    | memory | foreign => cases hfile
    | jsonFile q => exact ⟨_, hstart.clear q hm, rfl⟩
    | database q =>
      obtain rfl := Option.some.inj hfile
      exact Setting.shows_of_openStore hback hopen hi.folder hm hlog
  rw [hi.surroundings] at hopen ⊢
  obtain ⟨hdoes, hready', x', hholds, hshows⟩ :=
    step hfile hi hiapart hopen ⟨x, ⟨hx, hready⟩, hx⟩ i.setting.isAlive
  exact ⟨hdoes, asOneSession_of_ready hfile hrest hrestapart hready' hholds hshows⟩

end AsOneSession

/-! ### A store with a data file -/

/-- The store that the environment names, and no terminal. -/
def sampleSetting : Setting where
  surroundings := ⟨"/", { own := "/h" }⟩
  named := some "/s"
  isThere _ := .ok true
  now := "now"
  parser := parse (some "/s")
  echo := echoLine false
  echoError line := written false (line ++ "\n")
  printer := Toml.write
  plugins := []

/-- A file in the folder of the store. -/
def sampleFile (name : String) : Path := ⟨.slash, ["s", name]⟩

/-- A disk with a store that is to keep its records in a data file of this name. -/
def sampleDisk (name : String) : Disk :=
  ⟨[(["s", Config.fileName], .text ("[backend]\nname = \"json\"\nfilename = \"" ++ name ++ "\"\n"))],
    [["s"]], none⟩

/-- The calls for a command line that gives none of the options. -/
def noneGiven : List OptionCall := [.verbose false, .asData false, .store (some "/s")]

/-- A command that puts tags on a file, and answers with data. -/
def tagging : Invocation where
  setting := sampleSetting
  words := ["--json", "tag", "f", "x,y"]
  calls := [.asData true, .verbose false, .store (some "/s")]
  request := .tag "f" ["x,y"] false
  accepted := by decide +kernel

/-- A command that fails, for nobody knows the home it names. -/
def taggingNowhere : Invocation where
  setting := sampleSetting
  words := ["tag", "~bob/f", "x"]
  calls := noneGiven
  request := .tag "~bob/f" ["x"] false
  accepted := by decide +kernel

/-- A command that lists the files with tags. -/
def listing : Invocation where
  setting := sampleSetting
  words := ["list"]
  calls := noneGiven
  request := .files
  accepted := by decide +kernel

/-- A command that puts a tag on a file where only the letters of ASCII can be printed. -/
def taggingAccented : Invocation where
  setting := { sampleSetting with
    echo := fun message =>
      if message.toList.all (·.val < 128) then echoLine false message
      else .error (.refused "ordinal not in range(128)") }
  words := ["tag", "f", "é"]
  calls := noneGiven
  request := .tag "f" ["é"] false
  accepted := by decide +kernel

theorem exists_ok {α : Type} {r : Except Failure α} (h : r.isOk = true) : ∃ a, r = .ok a := by
  cases r with
  | error f => cases h
  | ok a => exact ⟨a, rfl⟩

section Sample
variable {i : Invocation}

theorem uses_of_sample (hi : i.setting.surroundings = sampleSetting.surroundings)
    (hstore : i.own.store = some "/s") (hdata : ∃ on, .asData on ∈ i.calls)
    (hfolder : .store (some "/s") ∈ i.calls) : i.Uses sampleSetting.surroundings ⟨.slash, ["s"]⟩ where
  surroundings := hi
  folder := by
    rw [Invocation.folder, hstore, Setting.folder, hi]
    rfl
  asData := hdata
  store := ⟨_, hfolder⟩

theorem uses_listing : listing.Uses sampleSetting.surroundings ⟨.slash, ["s"]⟩ :=
  uses_of_sample rfl rfl ⟨false, by decide⟩ (by decide)

theorem uses_taggingNowhere : taggingNowhere.Uses sampleSetting.surroundings ⟨.slash, ["s"]⟩ :=
  uses_of_sample rfl rfl ⟨false, by decide⟩ (by decide)

/-- Whatever the message, it can be printed. -/
theorem fault_of_sample (messages : List String) : (sampleSetting.printed messages).fault = none := by
  induction messages with
  | nil => rfl
  | cons message messages ih => exact ih

/-- What can be checked of the tagger of a session is checked where it is opened. -/
theorem Starts.check {o : OptionState} {d : Disk} {p : Path} {t : Tagger Host} {w : World Host}
    (h : Starts i o d p t w) (check : Tagger Host → World Host → Bool)
    (hcheck : (i.opens.runFrom (i.world o d)).1.toOption.all
      (fun t => check t (i.opens.runFrom (i.world o d)).2) = true) : check t w = true := by
  rw [h.opened] at hcheck
  exact hcheck

/-- A session starts with a command whose store is opened, if the data file can be used then. -/
theorem starts_of_sample (o : OptionState) (name : String) (hprinter : i.setting.printer = Toml.write)
    (hfile : i.dataFile? (sampleDisk name) = some (sampleFile name))
    (hnone : Entries.find? (sampleDisk name).files (sampleFile name).resolved = none)
    (hopen : (i.opens.runFrom (i.world o (sampleDisk name))).1.isOk = true)
    (hclear : Clear (i.opens.runFrom (i.world o (sampleDisk name))).2.state.disk (sampleFile name)) :
    ∃ t, Starts i o (sampleDisk name) (sampleFile name) t
      (i.opens.runFrom (i.world o (sampleDisk name))).2 := by
  obtain ⟨t, ht⟩ := exists_ok hopen
  refine ⟨t, Prod.ext ht rfl, hfile, ?_, fun q hq => ?_, fun F _ => ?_⟩
  · rw [hnone]
    trivial
  · rw [Invocation.dataFile?, hq] at hfile
    obtain rfl : q = sampleFile name := Option.some.inj hfile
    exact hclear
  · rw [hprinter]
    exact (prints_fresh F _).readsBack

end Sample

theorem asOneSession_of_sample : ∃ t w,
    Starts tagging ⟨true, false, some "/elsewhere"⟩ (sampleDisk "tags.json") (sampleFile "tags.json") t w ∧
      AsOneSession (sampleFile "tags.json") t [tagging, taggingNowhere, listing]
        ⟨true, false, some "/elsewhere"⟩ (sampleDisk "tags.json") w := by
  have hapart : sampleSetting.LogsApart (sampleFile "tags.json") := by
    intro log hlog
    obtain rfl : sampleFile ErrorLog.fileName = log := Except.ok.inj hlog
    decide
  have hopslog : (sampleFile "tags.json").Apart (Path.child ⟨.slash, ["s"]⟩ Backend.opsLogName) := by
    decide
  obtain ⟨t, hstart⟩ := starts_of_sample (i := tagging) ⟨true, false, some "/elsewhere"⟩
    "tags.json" rfl (by decide +kernel) rfl (by decide +kernel) (by decide +kernel)
  have huses : ∀ j ∈ [tagging, taggingNowhere, listing],
      j.Uses sampleSetting.surroundings ⟨.slash, ["s"]⟩ := by
    simp only [List.forall_mem_cons, List.not_mem_nil, false_implies, implies_true, and_true]
    exact ⟨uses_of_sample rfl rfl ⟨true, by decide⟩ (by decide), uses_taggingNowhere, uses_listing⟩
  have hlogs : ∀ j ∈ [tagging, taggingNowhere, listing], j.setting.LogsApart (sampleFile "tags.json") := by
    simp only [List.forall_mem_cons, List.not_mem_nil, false_implies, implies_true, and_true]
    exact ⟨hapart, hapart, hapart⟩
  exact ⟨t, _, hstart, asOneSession huses hlogs hopslog hstart⟩

/-- **Two things keep commands from doing as one session.**  A report in the place of the data file ends
it: the next command fails where the call of a tagger that is kept open answers.  And a command whose
answer cannot be printed fails where the call answers. -/
theorem not_asOneSession :
    (∃ t w, (∀ j ∈ [taggingNowhere, listing], j.Uses sampleSetting.surroundings ⟨.slash, ["s"]⟩) ∧
      Starts taggingNowhere {} (sampleDisk ErrorLog.fileName) (sampleFile ErrorLog.fileName) t w ∧
      ¬ AsOneSession (sampleFile ErrorLog.fileName) t [taggingNowhere, listing] {}
        (sampleDisk ErrorLog.fileName) w) ∧
    (∃ t w, taggingAccented.Uses sampleSetting.surroundings ⟨.slash, ["s"]⟩ ∧
      Starts taggingAccented {} (sampleDisk "tags.json") (sampleFile "tags.json") t w ∧
      ((taggingAccented.call t).runFrom w).1.isOk = true ∧
      (taggingAccented.run {} (sampleDisk "tags.json")).outcome.status = 1) := by
  constructor
  · obtain ⟨t, hstart⟩ := starts_of_sample (i := taggingNowhere) {} ErrorLog.fileName
      rfl (by decide +kernel) rfl (by decide +kernel) (by decide +kernel)
    have hanswered := hstart.check (fun t w =>
      ((listing.call t).runFrom ((taggingNowhere.call t).runFrom w).2).1.isOk) (by decide +kernel)
    have hfails : (listing.run (taggingNowhere.run {} (sampleDisk ErrorLog.fileName)).options
        (taggingNowhere.run {} (sampleDisk ErrorLog.fileName)).disk).outcome.status = 1 := by
      decide +kernel
    refine ⟨t, _, ?_, hstart, ?_⟩
    · simp only [List.forall_mem_cons, List.not_mem_nil, false_implies, implies_true, and_true]
      exact ⟨uses_taggingNowhere, uses_listing⟩
    rintro ⟨-, hlists, -⟩
    exact absurd (hfails.symm.trans (hlists.status_of_isOk hanswered fault_of_sample)) (by decide)
  · obtain ⟨t, hstart⟩ := starts_of_sample (i := taggingAccented) {} "tags.json"
      rfl (by decide +kernel) rfl (by decide +kernel) (by decide +kernel)
    have hanswered := hstart.check (fun t w =>
      ((taggingAccented.call t).runFrom w).1.isOk) (by decide +kernel)
    refine ⟨t, _, ?_, hstart, hanswered, by decide +kernel⟩
    exact uses_of_sample rfl rfl ⟨false, by decide⟩ (by decide)

end FileTags.Command
