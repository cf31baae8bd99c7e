import FileTags.Backend
import FileTags.Command.Answer
import FileTags.ErrorLog
import FileTags.Text.TerminalCode
/-! # Running a command

A command opens the store, answers one request, and closes the store, also when the request fails;
then it prints its answer.  A failure that the user can do something about is told in one line.  Any
other is written down in the error log, and the user is told where; so is an answer that cannot be
printed.

What reads the command line and what prints messages is not part of this library, and is given with
what else a command finds around it.
-/
namespace FileTags.Command

/-- What a command finds around it. -/
structure Setting where
  surroundings : Surroundings
  /-- The folder of the store that the environment names. -/
  named : Option String
  /-- Asks the system whether a path leads to a file or a folder. -/
  isThere : Path → Except Failure Bool
  now : String
  parser : Parser
  /-- What is printed for a message, if it can be printed. -/
  echo : String → Chunk
  /-- What is printed for a message on the error output. -/
  echoError : String → String
  /-- What prints the file of a new configuration. -/
  printer : Toml.Printer
  plugins : List Plugin

/-- How a command ends: its status, and what it prints. -/
structure Outcome where
  status : UInt32
  output : String
  errors : List String
  deriving DecidableEq, Repr

namespace Setting

variable (s : Setting)

/-- The folder of the store: the one that is chosen, or the default. -/
def folder (chosen : Option String) : Except Failure Path :=
  match chosen with
  | some text =>
    .ok ⟨.slash, ((Path.parse s.surroundings.current).under (Path.parse text)).resolved⟩
  | none => defaultFolder s.named s.surroundings.homes

/-- Whether the file of an identity is still there. -/
def isAlive (id : String) : Except Failure Bool :=
  Identity.location s.surroundings.homes id >>= s.isThere

/-- Tells the user a line on the error output. -/
def tell {σ : Type} (line : String) : Action (World σ) Unit :=
  modify fun w => { w with log := w.log.print (s.echoError line) }

/-- What comes of printing messages. -/
def printed (messages : List String) : Printed := .ofChunks (messages.map s.echo)

/-- Opens the store. -/
def openStore (chosen : Option String) : Action (World Host) (Tagger Host) := do
  let folder ← Action.ofExcept (s.folder chosen)
  let config ← World.onState (Host.onDisk (Config.loadOrCreate s.printer folder s.now))
  let medium ← Backend.openConfigured s.plugins config
  return ⟨medium.storage, s.surroundings, !config.sweepOnList.isEmpty, s.isAlive⟩

end Setting

/-- The line that tells of a failure. -/
def errorLine (f : Failure) : String := "Error: " ++ f.message

/-- Tells of a failure if it is expected, and then has no answer; passes on any other failure. -/
def reporting {σ α : Type} (s : Setting) (expected : Failure → Bool)
    (act : Action (World σ) α) : Action (World σ) (Option α) := do
  match ← act.attempt with
  | .ok a => return some a
  | .error f =>
    if expected f then
      s.tell (errorLine f)
      return none
    else throw f

/-- Whether the failure of an opening is told to the user. -/
def opensWith (f : Failure) : Bool := f.ofStore || f.ofSystem || f.ofValue

/-- Opens the store, answers a request, and closes the store. -/
def perform (s : Setting) (options : OptionState) (request : Request) :
    Action (World Host) (Option (List String)) := do
  match ← reporting s opensWith (s.openStore options.store) with
  | none => return none
  | some t =>
    -- A failure that was not expected goes on only after the store is closed.
    let result ← (reporting s (expects request) (answer t options.asData request)).attempt
    t.close
    .ofExcept result

/-- The heading of a failure in the error log. -/
def heading (f : Failure) : String :=
  if f.ofStore then "StoreFailure"
  else if f.ofSystem then "SystemFailure"
  else if f.ofValue then "RefusedValue"
  else "WrongUse"

/-- Writes down a failure that nobody expected, and tells the user where. -/
def recordFailure (s : Setting) (f : Failure) : Action (World Host) Unit := do
  let path ← Action.ofExcept (ErrorLog.path s.named s.surroundings.homes)
  World.onState (Host.onDisk (ErrorLog.append path ⟨s.now, "tagit CLI", [], heading f, f.message⟩))
  s.tell (errorLine f)
  s.tell ("Details logged to " ++ path.toText)

/-- The state of logging that a command starts with. -/
def startLog (verbose : Bool) : Log :=
  if verbose then (Log.start Level.warning.rank).enableDebug else Log.start Level.warning.rank

/-- The version that a user is told. -/
def versionLine : String := "tagit 0.1.0\n"

/-- The lines that say how to use the program. -/
def usage : List String :=
  ["Usage: tagit [--verbose] [--json] [--store FOLDER] COMMAND", "",
    "  tag ID TAGS... [--add]   Set the tags of a file.",
    "  untag ID [--tag TAG]...  Remove some or all tags of a file.",
    "  show ID                  Show the tags of a file.",
    "  list                     List all tagged files with their tags.",
    "  tags                     List every tag with the files that carry it.",
    "  find QUERY               Find files whose tags match a boolean query.",
    "  mv OLD NEW               Move tags to a file's new name after a rename.",
    "  sweep                    Remove tags of files that no longer exist."]

/-- The end of a command, and what it leaves on the disk, in the operations log and of its options. -/
structure Finished where
  outcome : Outcome
  disk : Disk
  ops : List String
  options : OptionState

/-- Runs a request. -/
def runRequest (s : Setting) (options : OptionState) (request : Request) (disk : Disk) : Finished :=
  let world : World Host := ⟨⟨disk, none, []⟩, startLog options.verbose⟩
  let finish (status : UInt32) (output : String) (w : World Host) : Finished :=
    ⟨⟨status, output, w.log.errors⟩, w.state.disk, w.log.ops.getD [], options⟩
  match (perform s options request).runFrom world with
  | (.ok (some messages), w) =>
    let printed := s.printed messages
    match printed.fault with
    | none => finish 0 printed.text w
    | some f => finish 1 printed.text ((recordFailure s f).runFrom w).2
  | (.ok none, w) => finish 1 "" w
  | (.error f, w) => finish 1 "" ((recordFailure s f).runFrom w).2

/-- Runs a command line on a disk, with the options that were set before. -/
def run (s : Setting) (words : List String) (options : OptionState) (disk : Disk) : Finished :=
  let line := s.parser words
  let options := line.calls.foldl OptionState.take options
  match line.asked with
  | .misuse => ⟨⟨2, "", usage⟩, disk, [], options⟩
  | .help => ⟨⟨0, String.join (usage.map (· ++ "\n")), []⟩, disk, [], options⟩
  | .version => ⟨⟨0, versionLine, []⟩, disk, [], options⟩
  | .work request => runRequest s options request disk

/-! ## A printer of messages -/

/-- A text as it is written: a terminal is sent its codes, anything else is not. -/
def written (toTerminal : Bool) (text : String) : String :=
  if toTerminal then text else String.ofList (Text.withoutCodes text.toList)

/-- Prints a message as a line. -/
def echoLine (toTerminal : Bool) (message : String) : Chunk := .ok (written toTerminal (message ++ "\n"))

end FileTags.Command
