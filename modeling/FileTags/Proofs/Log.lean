import FileTags.Log
import FileTags.Proofs.Entries
/-! # What reaches the operations log

A program that uses the library keeps it quiet, asks for everything, puts operations logs in use and
takes them out, and sends messages, in any order (`Step`).  The steps alone tell how many operations logs
are in use (`attached`) and whether it was the last word on the level to keep the library quiet
(`isHushed`); a run keeps to both (`Follows`), since putting an operations log in use opens the level to
informations.

So warnings and errors of the library always reach every operations log in use, and informations do unless
the library was hushed after that log was put in use (`ops_log_active`).  The one other way to lose a
message is its sender: whether those of a level pass is settled by the first of them, so a sender that
joins the library later may be measured by a level that was not the library's (`Strayed`).  No sender
strays whose name only adds parts that are not empty to that of the library (`not_strayed`).
-/
namespace FileTags

namespace Sender

/-- **A sender belongs to the library, whoever else sends**, if no part between the library's and its
own is empty. -/
theorem isOwn_of_parts {name : String} {own : List Char} {between : List (List Char)}
    (hparts : parts name = own :: (between ++ [ownName.toList])) (hbetween : [] ∉ between)
    (used : List String) : isOwn used name = true := by
  have hleads : leadsToOwn used (between ++ [ownName.toList]) = true := by
    clear hparts
    induction between with
    | nil => exact decide_eq_true rfl
    | cons part between ih =>
      rw [List.mem_cons, not_or] at hbetween
      have hpart : part.isEmpty = false := List.isEmpty_eq_false_iff.2 (Ne.symm hbetween.1)
      obtain ⟨first, rest, hrest⟩ :=
        List.exists_cons_of_ne_nil (List.append_ne_nil_of_right_ne_nil between (List.cons_ne_nil _ _))
      rw [List.cons_append, hrest, leadsToOwn, hpart, ← hrest]
      exact ih hbetween.2
  rw [isOwn, hparts, List.tail_cons, hleads, Bool.or_true]

end Sender

namespace Log

/-- **A step of the program that uses the library.** -/
inductive Step where
  /-- Keeps the library to warnings, or leaves all as it is. -/
  | quiet (on : Bool)
  | debug
  | attach
  | detach
  | send (e : Entry)
  deriving DecidableEq, Repr

/-- What a step does to logging. -/
def next (log : Log) : Step → Log
  | .quiet on => if on then log.quiet else log
  | .debug => log.enableDebug
  | .attach => log.attachOps
  | .detach => log.detachOps
  | .send e => log.add e

/-- Logging after steps. -/
def run (log : Log) (steps : List Step) : Log := steps.foldl next log

/-- How many operations logs are in use after a step. -/
def Step.attached (n : Nat) : Step → Nat
  | .attach => n + 1
  | .detach => n - 1
  | _ => n

/-- Whether the library is hushed after a step. -/
def Step.hushed (hushed : Bool) : Step → Bool
  | .quiet on => on || hushed
  | .debug | .attach => false
  | _ => hushed

/-- **How many operations logs are in use** after steps. -/
def attached (steps : List Step) : Nat := steps.foldl Step.attached 0

/-- **Whether the library is hushed**: of the steps about its level, the last was to keep it quiet. -/
def isHushed (steps : List Step) : Bool := steps.foldl Step.hushed false

/-- How often a message of a level is written. -/
def copies (n : Nat) (hushed : Bool) : Level → Nat
  | .debug => 0
  | .info => if hushed then 0 else n
  | .warning | .error => n

/-- The lines of the operations log; none if there never was one. -/
def written (log : Log) : List String := log.ops.getD []

/-- Whether a message is the library's when it is sent. -/
def owns (log : Log) (e : Entry) : Bool := (log.addSender e.sender).isOwn e

/-- **The sender of a message has strayed**: among steps it sent one of the same level while it did not
belong to the library. -/
def Strayed (log : Log) (steps : List Step) (e : Entry) : Prop :=
  ∃ before earlier after, steps = before ++ .send earlier :: after ∧
    earlier.sender = e.sender ∧ earlier.level = e.level ∧ (log.run before).owns earlier = false

variable {log : Log} {steps : List Step} {e : Entry} {n : Nat} {hushed : Bool}

/-! ## Single steps -/

theorem run_append (log : Log) (steps more : List Step) :
    log.run (steps ++ more) = (log.run steps).run more := List.foldl_append ..

theorem run_concat (log : Log) (steps : List Step) (step : Step) :
    log.run (steps ++ [step]) = (log.run steps).next step := run_append ..

@[simp] theorem level_add (log : Log) (e : Entry) : (log.add e).level = log.level := by
  rw [add, write, settle, addSender]
  split <;> rfl

@[simp] theorem rootLevel_add (log : Log) (e : Entry) : (log.add e).rootLevel = log.rootLevel := by
  rw [add, write, settle, addSender]
  split <;> rfl

@[simp] theorem opsLogs_add (log : Log) (e : Entry) : (log.add e).opsLogs = log.opsLogs := by
  rw [add, write, settle, addSender]
  split <;> rfl

theorem ops_add (log : Log) (e : Entry) :
    (log.add e).ops = log.ops.map (· ++ ((log.addSender e.sender).settle e).opsLines e) := by
  rw [add, write, settle, addSender]
  split <;> rfl

theorem settled_add (log : Log) (e : Entry) :
    (log.add e).settled =
      Entries.put log.settled (e.sender, e.level) ((log.addSender e.sender).passes e) := by
  rw [add, write, settle, addSender]
  split <;> rfl

/-! ## What the steps tell -/

/-- **Logging follows steps** that leave so many operations logs in use, and the library hushed or not.
While a log is in use the library has a level of its own, which warnings pass; informations pass it unless
the library is hushed. -/
structure Follows (log : Log) (n : Nat) (hushed : Bool) : Prop where
  opsLogs : log.opsLogs = n
  file : 0 < n → log.ops.isSome = true
  ownLevel : 0 < n → log.level ≠ 0
  warnings : 0 < n → log.level ≤ Level.warning.rank
  informations : 0 < n → (hushed = true ↔ Level.info.rank < log.level)

/-- The level may have been set, whatever it was before. -/
theorem follows_of_level (level : Int) (hlogs : log.opsLogs = n)
    (hfile : 0 < n → log.ops.isSome = true) (hlevel : log.level = level)
    (hown : level ≠ 0 ∧ level ≤ Level.warning.rank) (hhushed : hushed = true ↔ Level.info.rank < level) :
    log.Follows n hushed :=
  ⟨hlogs, hfile, fun _ => hlevel ▸ hown.1, fun _ => hlevel ▸ hown.2, fun _ => hlevel ▸ hhushed⟩

/-- An operations log that is put in use lets informations through. -/
theorem Follows.attachOps (h : log.Follows n hushed) : log.attachOps.Follows (n + 1) false := by
  rw [Log.attachOps]
  split
  · exact follows_of_level Level.info.rank (congrArg (· + 1) h.opsLogs) (fun _ => rfl) rfl (by decide)
      (by decide)
  · rename_i hlevel
    rw [not_or, Int.not_lt] at hlevel
    have hwarnings : log.level ≤ Level.warning.rank := Int.le_trans hlevel.2 (by decide)
    exact follows_of_level log.level (congrArg (· + 1) h.opsLogs) (fun _ => rfl) rfl
      ⟨hlevel.1, hwarnings⟩ ⟨nofun, fun hlt => absurd hlevel.2 (Int.not_le.2 hlt)⟩

/-- **Every step is followed.** -/
theorem Follows.next (h : log.Follows n hushed) (step : Step) :
    (log.next step).Follows (step.attached n) (step.hushed hushed) := by
  cases step with
  | quiet on =>
    cases on with
    | false => exact h
    | true =>
      exact follows_of_level Level.warning.rank h.opsLogs h.file rfl (by decide)
        ⟨fun _ => by decide, fun _ => rfl⟩
  | debug =>
    exact follows_of_level Level.debug.rank h.opsLogs h.file rfl (by decide)
      ⟨nofun, fun hlt => absurd hlt (by decide)⟩
  | attach => exact h.attachOps
  | detach =>
    have hmore : 0 < n - 1 → 0 < n := fun hn => Nat.lt_of_lt_of_le hn (Nat.sub_le n 1)
    exact ⟨congrArg (· - 1) h.opsLogs, fun hn => h.file (hmore hn), fun hn => h.ownLevel (hmore hn),
      fun hn => h.warnings (hmore hn), fun hn => h.informations (hmore hn)⟩
  | send e =>
    refine ⟨(opsLogs_add log e).trans h.opsLogs, fun hn => ?_, fun hn => ?_, fun hn => ?_, fun hn => ?_⟩
    · rw [Log.next, ops_add, Option.isSome_map]
      exact h.file hn
    · rw [Log.next, level_add]
      exact h.ownLevel hn
    · rw [Log.next, level_add]
      exact h.warnings hn
    · rw [Log.next, level_add]
      exact h.informations hn

/-- **Every run is followed**, whatever the level it starts from. -/
theorem follows_run (level : Int) (steps : List Step) :
    ((start level).run steps).Follows (attached steps) (isHushed steps) := by
  induction steps using List.reverseRecOn with
  | nil => exact ⟨rfl, nofun, nofun, nofun, nofun⟩
  | append_singleton steps step ih =>
    rw [run_concat, attached, isHushed, List.foldl_concat, List.foldl_concat]
    exact ih.next step

/-! ## What is settled -/

/-- The level that messages of the library must reach. -/
def ownThreshold (log : Log) : Int := if log.level ≠ 0 then log.level else log.rootLevel

/-- Whether a message of the library passes, is settled by an earlier one, or by the level. -/
theorem passes_of_owns (h : log.owns e = true) :
    (log.addSender e.sender).passes e =
      (Entries.find? log.settled (e.sender, e.level)).getD (log.ownThreshold ≤ e.level.rank) := by
  have hown : (log.addSender e.sender).isOwn e = true := h
  have hthreshold : (log.addSender e.sender).threshold e = log.ownThreshold := by
    rw [threshold, ownThreshold, hown, addSender]
    split <;> simp
  have hsettled : (log.addSender e.sender).settled = log.settled := by
    rw [addSender]
    split <;> rfl
  rw [passes, hthreshold, hsettled]

/-- A step other than a message settles nothing: it forgets what was settled, or leaves it and the
levels alone. -/
theorem settled_next (log : Log) {step : Step} (h : ∀ e, step ≠ .send e) :
    (log.next step).settled = [] ∨ (log.next step).settled = log.settled ∧
      (log.next step).ownThreshold = log.ownThreshold := by
  cases step with
  | quiet on =>
    cases on with
    | false => exact .inr ⟨rfl, rfl⟩
    | true => exact .inl rfl
  | debug => exact .inl rfl
  | attach =>
    rw [next, attachOps]
    split
    · exact .inl rfl
    · exact .inr ⟨rfl, rfl⟩
  | detach => exact .inr ⟨rfl, rfl⟩
  | send e => exact absurd rfl (h e)

/-- Who belongs to the library, whoever else sends, does not stray. -/
theorem not_strayed (h : ∀ used, Sender.isOwn used e.sender = true) (log : Log) (steps : List Step) :
    ¬ Strayed log steps e := by
  rintro ⟨before, earlier, after, -, hsender, -, hforeign⟩
  rw [owns, isOwn, hsender, h] at hforeign
  cases hforeign

/-- Who has not strayed after steps had not before. -/
theorem Strayed.append (h : Strayed log steps e) (more : List Step) : Strayed log (steps ++ more) e := by
  obtain ⟨before, earlier, after, rfl, hearlier⟩ := h
  exact ⟨before, earlier, after ++ more, by rw [List.append_assoc, List.cons_append], hearlier⟩

/-- **What is settled for the library's senders is what their level says**, as long as they do not
stray. -/
theorem settled_run (hstart : log.settled = []) {passed : Bool}
    (hfind : Entries.find? (log.run steps).settled (e.sender, e.level) = some passed)
    (hstay : ¬ Strayed log steps e) :
    passed = decide ((log.run steps).ownThreshold ≤ e.level.rank) := by
  induction steps using List.reverseRecOn generalizing passed with
  | nil =>
    rw [run, List.foldl_nil, hstart] at hfind
    cases hfind
  | append_singleton steps step ih =>
    have hstayed : ¬ Strayed log steps e := fun h => hstay (h.append [step])
    rw [run_concat] at hfind ⊢
    by_cases hsend : ∃ sent, step = .send sent
    · obtain ⟨sent, rfl⟩ := hsend
      have hthreshold : ((log.run steps).add sent).ownThreshold = (log.run steps).ownThreshold := by
        rw [ownThreshold, ownThreshold, level_add, rootLevel_add]
      rw [next, settled_add, Entries.find?_put] at hfind
      rw [next, hthreshold]
      split at hfind
      · -- The message is of this sender and level, and has not strayed.
        rename_i hsame
        obtain ⟨hsender, hlevel⟩ := Prod.mk.inj hsame
        have howns : (log.run steps).owns sent = true := by
          refine Bool.not_eq_false _ ▸ fun hnot => hstay ?_
          exact ⟨steps, sent, [], rfl, hsender, hlevel, hnot⟩
        rw [passes_of_owns howns, hsender, hlevel] at hfind
        obtain rfl := Option.some.inj hfind
        cases hknown : Entries.find? (log.run steps).settled (e.sender, e.level) with
        | none => rfl
        | some before => exact ih hknown hstayed
      · exact ih hfind hstayed
    · rcases settled_next (log.run steps) (not_exists.1 hsend) with hnone | ⟨hsame, hthreshold⟩
      · rw [hnone] at hfind
        cases hfind
      · rw [hsame] at hfind
        rw [hthreshold]
        exact ih hfind hstayed

/-! ## What is written -/

/-- **Steps only add to the operations log.** -/
theorem written_next (log : Log) (step : Step) :
    ∃ later, (log.next step).written = log.written ++ later := by
  cases step with
  | quiet on =>
    cases on with
    | false => exact ⟨[], (List.append_nil _).symm⟩
    | true => exact ⟨[], (List.append_nil _).symm⟩
  | debug | detach => exact ⟨[], (List.append_nil _).symm⟩
  | attach =>
    refine ⟨[], ?_⟩
    rw [next, attachOps, List.append_nil]
    split <;> rfl
  | send e =>
    rw [next, written, ops_add]
    cases hops : log.ops with
    | none => exact ⟨[], by rw [written, hops]; rfl⟩
    | some lines => exact ⟨_, by rw [written, hops]; rfl⟩

theorem written_run (log : Log) (steps : List Step) :
    ∃ later, (log.run steps).written = log.written ++ later := by
  induction steps using List.reverseRecOn with
  | nil => exact ⟨[], (List.append_nil _).symm⟩
  | append_singleton steps step ih =>
    obtain ⟨later, hlater⟩ := ih
    obtain ⟨more, hmore⟩ := written_next (log.run steps) step
    exact ⟨later ++ more, by rw [run_concat, hmore, hlater, List.append_assoc]⟩

/-- A message of the library that passes is added once for each operations log in use. -/
theorem opsLines_of_owns (howns : log.owns e = true) :
    ((log.addSender e.sender).settle e).opsLines e =
      if (log.addSender e.sender).passes e ∧ Level.info.rank ≤ e.level.rank then
        List.replicate log.opsLogs e.line
      else [] := by
  have hpasses : ((log.addSender e.sender).settle e).passes e = (log.addSender e.sender).passes e := by
    rw [passes, settle, Entries.find?_put_self, Option.getD_some]
  have hlogs : ((log.addSender e.sender).settle e).opsLogsFor e = log.opsLogs := by
    have hown : ((log.addSender e.sender).settle e).isOwn e = true := howns
    rw [opsLogsFor, hown, if_pos rfl, settle, addSender]
    split <;> rfl
  rw [opsLines, hpasses, hlogs]

/-- **A message of the library is written as often as the steps tell**, if no other level was settled for
it. -/
theorem written_send (h : log.Follows n hushed) (howns : log.owns e = true)
    (hpasses : (log.addSender e.sender).passes e = decide (log.ownThreshold ≤ e.level.rank)) :
    (log.next (.send e)).written =
      log.written ++ List.replicate (copies n hushed e.level) e.line := by
  have hlines : ((log.addSender e.sender).settle e).opsLines e =
      List.replicate (copies n hushed e.level) e.line := by
    rw [opsLines_of_owns howns, hpasses, h.opsLogs]
    simp only [decide_eq_true_eq]
    rcases Nat.eq_zero_or_pos n with rfl | hn
    · rw [List.replicate_zero, ite_self]
      cases e.level <;> simp [copies]
    · rw [ownThreshold, if_pos (h.ownLevel hn)]
      have hwarnings := h.warnings hn
      have hinformations := h.informations hn
      cases hlevel : e.level with
      | debug => exact if_neg fun hboth => absurd hboth.2 (by decide)
      | info =>
        cases hushed with
        | true => exact if_neg fun hboth => absurd hboth.1 (Int.not_le.2 (hinformations.1 rfl))
        | false =>
          have hopen : log.level ≤ Level.info.rank :=
            Int.not_lt.1 fun hlt => Bool.false_ne_true (hinformations.2 hlt)
          exact if_pos ⟨hopen, by decide⟩
      | warning => exact if_pos ⟨hwarnings, by decide⟩
      | error => exact if_pos ⟨Int.le_trans hwarnings (by decide), by decide⟩
  rw [next, written, written, ops_add, hlines]
  cases hops : log.ops with
  | some lines => rfl
  | none =>
    -- Without a file no operations log is in use.
    have hzero : n = 0 := by
      refine Nat.eq_zero_of_not_pos fun hn => ?_
      have hfile := h.file hn
      rw [hops] at hfile
      cases hfile
    subst hzero
    cases e.level <;> simp [copies]

/-- **What a message adds to the operations log in a run.**

It is written once to each operations log in use, after all that was written before and before all that is
written later; an information is not written while the library is hushed. -/
theorem ops_log_active (level : Int) (steps more : List Step) (e : Entry)
    (howns : ((start level).run steps).owns e = true) (hstay : ¬ Strayed (start level) steps e) :
    ∃ later, ((start level).run (steps ++ .send e :: more)).written =
      ((start level).run steps).written ++
        List.replicate (copies (attached steps) (isHushed steps) e.level) e.line ++ later := by
  have hpasses : (((start level).run steps).addSender e.sender).passes e =
      decide (((start level).run steps).ownThreshold ≤ e.level.rank) := by
    rw [passes_of_owns howns]
    cases hknown : Entries.find? ((start level).run steps).settled (e.sender, e.level) with
    | none => rfl
    | some passed => exact settled_run rfl hknown hstay
  obtain ⟨later, hlater⟩ := written_run (((start level).run steps).next (.send e)) more
  refine ⟨later, ?_⟩
  rw [run_append, ← written_send (follows_run level steps) howns hpasses, ← hlater]
  rfl

/-- The library was hushed, and an operations log put in use after that lets informations through again,
while the one before it is taken out. -/
theorem ops_log_active_of_reopening :
    let steps := [.debug, .attach, .quiet true, .attach, .detach]
    let e : Entry := ⟨.info, "tagit.api", "opened"⟩
    ((start 50).run steps).owns e = true ∧ ¬ Strayed (start 50) steps e ∧
    ∃ later, ((start 50).run (steps ++ [.send e, .quiet true])).written = ["INFO opened"] ++ later := by
  intro steps e
  have howns : ((start 50).run steps).owns e = true := by decide
  have hparts : Sender.parts "tagit.api" = "api".toList :: ([] ++ [Sender.ownName.toList]) := by decide
  have hstay : ¬ Strayed (start 50) steps e :=
    not_strayed (Sender.isOwn_of_parts hparts List.not_mem_nil) _ _
  exact ⟨howns, hstay, ops_log_active 50 steps [.quiet true] e howns hstay⟩

/-- **Hushing the library hushes the operations logs that are in use**: the information is written to
none. -/
theorem not_active_of_quiet :
    let log := (start 0).run [.attach, .quiet true]
    let e : Entry := ⟨.info, "tagit", "opened"⟩
    log.opsLogs = 1 ∧ log.owns e = true ∧ (log.next (.send e)).written = [] := by
  decide

/-- A sender that joins the library after its first message is still measured as it was then. -/
example :
    let joined : List Step :=
      [.attach, .send ⟨.info, "tagit..x", "a"⟩, .send ⟨.info, "tagit.", "b"⟩]
    let e : Entry := ⟨.info, "tagit..x", "c"⟩
    ((start 0).run joined).owns e = true ∧ ((start 0).run (joined ++ [.send e])).written = ["INFO b"] := by
  decide

end Log

end FileTags
