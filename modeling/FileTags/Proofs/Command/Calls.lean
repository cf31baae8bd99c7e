import FileTags.Command.Answer
import FileTags.Proofs.Records
import FileTags.Proofs.Tagger.Parallel
/-! # The calls of a command

A command asks its tagger for one operation, or for two if files were moved (`Request.calls`), and
puts what it is told into messages (`Request.shown`); what it answers is nothing else (`answer_eq`).

Over a storage whose records are lists of texts there are always such messages
(`exists_shown`): only a tag that is no text could not be put on a line.
-/
namespace FileTags.Command

open FileTags.Action FileTags.Storage
open Record (ofNames)

variable {σ α β : Type}

/-- What a tagger tells a command. -/
inductive Told where
  | file (f : TaggedFile)
  | files (fs : List TaggedFile)
  | groups (gs : List TagGroup)
  | moved (b : Bool) (id : String)
  | swept (ids : List String)

/-- What a request asks of the tagger.  A text may name several tags, and moving tags ends with a look
at the file that they moved to. -/
def Request.calls (t : Tagger σ) : Request → Action (World σ) Told
  | .tag id texts add => do
    return .file (← t.tag id (tagValue (texts.flatMap Tag.split)) (!add))
  | .untag id tags => do
    return .file (← t.untag id (if tags.isEmpty then none else some (tagValue tags)))
  | .tagsOf id => do return .file (← t.get id)
  | .files => do return .files (← t.files)
  | .groups => do return .groups (← t.tags)
  | .find query => do return .files (← t.find query)
  | .move old new => do
    let moved ← t.renamed old new
    let file ← t.get new
    return .moved moved file.id
  | .sweep => do return .swept (← t.sweep)

/-- The messages that a request has to show for what it was told, with data or with lines. -/
def Request.shown (asData : Bool) : Request → Told → Except Failure (List String)
  | .tagsOf _, .file f => List.singleton <$> Listing.file f asData
  | _, .file f => List.singleton <$> Listing.files [f] asData Listing.noFiles
  | .find _, .files fs => List.singleton <$> Listing.files fs asData noMatches
  | _, .files fs => List.singleton <$> Listing.files fs asData Listing.noFiles
  | _, .groups gs => .ok [Listing.groups gs asData]
  | _, .moved moved id => .ok [moveText asData moved id]
  | _, .swept ids => .ok (sweepMessages asData ids)

theorem singleton_ofExcept (r : Except Failure α) :
    (do return [← Action.ofExcept r] : Action σ (List α)) = Action.ofExcept (List.singleton <$> r) := by
  cases r <;> rfl

/-- **A command answers with what it has to show for its calls.** -/
theorem answer_eq (t : Tagger σ) (asData : Bool) (request : Request) :
    answer t asData request =
      request.calls t >>= fun told => Action.ofExcept (request.shown asData told) := by
  cases request with
  | move old new =>
    rw [answer, Request.calls, bind_assoc]
    refine bind_congr fun moved => ?_
    rw [bind_assoc]
    refine bind_congr fun file => ?_
    rw [pure_bind]
    rfl
  | groups | sweep =>
    rw [answer, Request.calls, bind_assoc]
    refine bind_congr fun told => ?_
    rw [pure_bind]
    rfl
  | tag | untag | tagsOf | files | find =>
    rw [answer, Request.calls, bind_assoc]
    refine bind_congr fun told => ?_
    rw [pure_bind]
    exact singleton_ofExcept _

/-- The calls of a request go in parallel over linked storages. -/
theorem parallel_calls {τ : Type} {L : World σ → World τ → Prop} {s : Storage σ} {s' : Storage τ}
    (h : Linked L s s') (S : Surroundings) (sweeps : Bool) (isAlive : String → Except Failure Bool)
    (request : Request) :
    Parallel L (request.calls ⟨s, S, sweeps, isAlive⟩) (request.calls ⟨s', S, sweeps, isAlive⟩) := by
  cases request with
  | tag id texts add => exact (Tagger.parallel_tag h S sweeps isAlive id _ _).map _
  | untag id tags => exact (Tagger.parallel_untag h S sweeps isAlive id _).map _
  | tagsOf id => exact (Tagger.parallel_get h S sweeps isAlive id).map _
  | files => exact (Tagger.parallel_files h S sweeps isAlive).map _
  | groups => exact (Tagger.parallel_tags h S sweeps isAlive).map _
  | find query => exact (Tagger.parallel_find h S sweeps isAlive query).map _
  | move old new =>
    exact (Tagger.parallel_renamed h S sweeps isAlive old new).bind fun _ =>
      (Tagger.parallel_get h S sweeps isAlive new).map _
  | sweep => exact (Tagger.parallel_sweep h S sweeps isAlive).map _

/-! ## What can be shown -/

/-- Whatever state it starts from, an action answers with something that has a property, if it
answers. -/
def Gives (P : α → Prop) (act : Action σ α) : Prop := ∀ s a, (act.runFrom s).1 = .ok a → P a

theorem gives_pure {P : α → Prop} {a : α} (h : P a) : Gives P (pure a : Action σ α) := by
  intro s a' ha
  obtain rfl := Except.ok.inj ha
  exact h

theorem Gives.bind {P : α → Prop} {Q : β → Prop} {act : Action σ α} {next : α → Action σ β}
    (h : Gives P act) (hn : ∀ a, P a → Gives Q (next a)) : Gives Q (act >>= next) := by
  intro s b hb
  rw [runFrom_bind] at hb
  rcases hact : act.runFrom s with ⟨f | a, s'⟩
  · rw [hact] at hb
    cases hb
  · rw [hact] at hb
    exact hn a (h s a (congrArg Prod.fst hact)) s' b hb

/-- Only the last action of a run matters if the property holds wherever it starts. -/
theorem gives_last {Q : β → Prop} {act : Action σ α} {next : α → Action σ β}
    (hn : ∀ a, Gives Q (next a)) : Gives Q (act >>= next) :=
  Gives.bind (P := fun _ => True) (fun _ _ _ => trivial) fun a _ => hn a

/-- A record of texts. -/
def IsTexts (record : Record) : Prop := ∃ names, record = ofNames names

/-- Files with texts for tags. -/
def TextFiles (fs : List TaggedFile) : Prop := ∀ f ∈ fs, IsTexts f.tags

/-- What is told is put together from texts. -/
def Told.OfTexts : Told → Prop
  | .file f => IsTexts f.tags
  | .files fs => TextFiles fs
  | _ => True

/-- The records of a storage are lists of texts. -/
def ReadsTexts (s : Storage σ) : Prop :=
  ∀ k, Gives (fun record? => ∀ record, record? = some record → IsTexts record) (s.read k)

section ReadsTexts
variable {t : Tagger σ} (h : ReadsTexts t.storage)
include h

theorem get_gives (id : String) : Gives IsTexts (Store.get t.storage id) := by
  have hread : Gives (fun record? => ∀ record, record? = some record → IsTexts record)
      (Store.read t.storage id) := fun w record? hr => h id w.state record? hr
  refine hread.bind fun record? hrecord w tags htags => ?_
  obtain ⟨names, hnames⟩ : IsTexts (record?.getD []) := by
    cases record? with
    | none => exact ⟨[], rfl⟩
    | some record => exact hrecord record rfl
  rw [runFrom_ofExcept, hnames, Tag.dedupe_ofNames] at htags
  exact ⟨_, (Except.ok.inj htags).symm⟩

theorem tagger_get_gives (id : String) : Gives (fun f => IsTexts f.tags) (t.get id) :=
  gives_last fun identity => (get_gives h identity).bind fun _ hrecord => gives_pure hrecord

theorem tagsOfEach_gives (ids : List String) :
    Gives (fun entries => ∀ e ∈ entries, IsTexts e.2) (Store.tagsOfEach t.storage ids) := by
  induction ids with
  | nil => exact gives_pure nofun
  | cons id ids ih =>
    refine (get_gives h id).bind fun tags htags => ih.bind fun rest hrest => gives_pure ?_
    split
    · exact hrest
    · exact List.forall_mem_cons.2 ⟨htags, hrest⟩

theorem files_gives : Gives TextFiles t.files := by
  have hlisted : Gives TextFiles (do
      let items ← Store.items t.storage
      return (items.mergeSort fun a b => a.1 ≤ b.1).map fun item => ⟨item.1, item.2⟩) := by
    refine Gives.bind (gives_last fun keys => tagsOfEach_gives h _) fun items hitems => gives_pure ?_
    intro f hf
    obtain ⟨item, hitem, rfl⟩ := List.mem_map.1 hf
    exact hitems item ((List.mergeSort_perm items _).mem_iff.1 hitem)
  rw [Tagger.files]
  cases t.sweepOnList with
  | true => exact gives_last fun _ => hlisted
  | false => exact hlisted

theorem find_gives (query : String) : Gives TextFiles (t.find query) := by
  rw [Tagger.find]
  split
  · intro w fs hfs
    cases hfs
  · refine (files_gives h).bind fun files hfiles => gives_last fun _ => gives_pure ?_
    exact fun f hf => hfiles f (List.mem_filter.1 hf).1

theorem tag_gives (id : String) (tags : Value) (replace : Bool) :
    Gives (fun f => IsTexts f.tags) (t.tag id tags replace) := by
  refine gives_last fun identity => gives_last fun given => ?_
  have hput : ∀ entries, Gives (fun f : TaggedFile => IsTexts f.tags) (do
      Store.set t.storage identity entries
      let text ← Action.ofExcept (Tagger.joined (← Action.ofExcept (Tag.dedupe entries)))
      Tagger.note .info ("Tagged " ++ identity ++ ": " ++ text)
      t.get identity) := fun entries => gives_last fun _ => gives_last fun _ => gives_last fun _ =>
        gives_last fun _ => tagger_get_gives h identity
  cases replace with
  | true => exact hput given
  | false => exact gives_last fun entries => hput entries

theorem untag_gives (id : String) (tags : Option Value) :
    Gives (fun f => IsTexts f.tags) (t.untag id tags) := by
  refine gives_last fun identity => ?_
  have hread : ∀ text, Gives (fun f : TaggedFile => IsTexts f.tags) (do
      Tagger.note .info text
      t.get identity) := fun text => gives_last fun _ => tagger_get_gives h identity
  cases tags with
  | none => exact gives_last fun _ => hread _
  | some v =>
    exact gives_last fun _ => gives_last fun _ => gives_last fun _ => gives_last fun _ =>
      gives_last fun _ => hread _

/-- **Over records of texts a tagger tells of texts.** -/
theorem calls_gives (request : Request) : Gives Told.OfTexts (request.calls t) := by
  cases request with
  | tag id texts add => exact (tag_gives h id _ _).bind fun _ hf => gives_pure hf
  | untag id tags => exact (untag_gives h id _).bind fun _ hf => gives_pure hf
  | tagsOf id => exact (tagger_get_gives h id).bind fun _ hf => gives_pure hf
  | files => exact (files_gives h).bind fun _ hfs => gives_pure hfs
  | find query => exact (find_gives h query).bind fun _ hfs => gives_pure hfs
  | groups => exact gives_last fun _ => gives_pure trivial
  | move old new => exact gives_last fun _ => gives_last fun _ => gives_pure trivial
  | sweep => exact gives_last fun _ => gives_pure trivial

end ReadsTexts

/-! ## Showing texts -/

theorem exists_joined {record : Record} (h : IsTexts record) (separator : String) :
    ∃ text, joinTexts separator record = .ok text := by
  obtain ⟨names, rfl⟩ := h
  exact ⟨_, joinTexts_ofNames separator names⟩

theorem exists_file_shown {f : TaggedFile} (h : IsTexts f.tags) (asData : Bool) :
    ∃ text, Listing.file f asData = .ok text := by
  rw [Listing.file]
  split
  · exact ⟨_, rfl⟩
  · split
    · exact ⟨_, rfl⟩
    · exact exists_joined h _

theorem exists_lines {fs : List TaggedFile} (h : TextFiles fs) :
    ∃ lines, fs.mapM TaggedFile.line = .ok lines := by
  induction fs with
  | nil => exact ⟨[], rfl⟩
  | cons f fs ih =>
    obtain ⟨hf, hfs⟩ := List.forall_mem_cons.1 h
    obtain ⟨lines, hlines⟩ := ih hfs
    obtain ⟨text, htext⟩ := exists_joined hf ", "
    have hline : f.line = .ok (f.id ++ ": " ++ text) := by
      rw [TaggedFile.line, htext]
      rfl
    exact ⟨_, by rw [List.mapM_cons, hline, hlines]; rfl⟩

theorem exists_files_shown {fs : List TaggedFile} (h : TextFiles fs) (asData : Bool)
    (none : String) : ∃ text, Listing.files fs asData none = .ok text := by
  rw [Listing.files]
  split
  · exact ⟨_, rfl⟩
  · split
    · exact ⟨_, rfl⟩
    · obtain ⟨lines, hlines⟩ := exists_lines h
      exact ⟨_, by rw [hlines]; rfl⟩

theorem exists_singleton {r : Except Failure String} (h : ∃ text, r = .ok text) :
    ∃ messages, List.singleton <$> r = .ok messages := by
  obtain ⟨text, rfl⟩ := h
  exact ⟨[text], rfl⟩

/-- **What is told of texts can be shown.** -/
theorem exists_shown {told : Told} (h : told.OfTexts) (request : Request) (asData : Bool) :
    ∃ messages, request.shown asData told = .ok messages := by
  cases told with
  | file f =>
    have hone : TextFiles [f] := fun g hg => List.mem_singleton.1 hg ▸ h
    cases request with
    | tagsOf id => exact exists_singleton (exists_file_shown h asData)
    | _ => exact exists_singleton (exists_files_shown hone asData _)
  | files fs =>
    cases request with
    | _ => exact exists_singleton (exists_files_shown h asData _)
  | groups gs => cases request <;> exact ⟨_, rfl⟩
  | moved b id => cases request <;> exact ⟨_, rfl⟩
  | swept ids => cases request <;> exact ⟨_, rfl⟩

end FileTags.Command
