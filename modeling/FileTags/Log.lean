import FileTags.Entries
import FileTags.Sender
/-! # Logging

Messages have a level and the name of the sender.  The library's own senders share one level, all
others have that of the root.  A message that passes its level goes to every operations log in use,
if it is from the library and at least an information, and to the console, if that is in use.  A
message that no log and no console is there to take is printed bare, if it is at least a warning.

Which senders are the library's own depends on the senders in use, so it can change when a new one
comes.  Where the messages of a sender go changes at once; whether those of a level pass was settled
by the first of them, and stays so until a level is set.
-/
namespace FileTags

/-- How much a message matters. -/
inductive Level where
  | debug
  | info
  | warning
  | error
  deriving DecidableEq, Repr

namespace Level

/-- The number that levels are compared by. -/
def rank : Level → Int
  | .debug => 10
  | .info => 20
  | .warning => 30
  | .error => 40

/-- The name of a level in a log. -/
def name : Level → String
  | .debug => "DEBUG"
  | .info => "INFO"
  | .warning => "WARNING"
  | .error => "ERROR"

end Level

/-- A message. -/
structure Entry where
  level : Level
  sender : String
  text : String
  deriving DecidableEq, Repr

namespace Entry

/-- The line of a message in an operations log. -/
def line (e : Entry) : String := e.level.name ++ " " ++ e.text

/-- The line of a message on the console. -/
def consoleLine (e : Entry) : String := e.level.name ++ " " ++ e.sender ++ ": " ++ e.text

end Entry

/-- The state of logging: the levels (zero for none of its own), whether the console is in use, how
many operations logs are, who sent messages, and what has been written. -/
structure Log where
  level : Int
  rootLevel : Int
  console : Bool
  opsLogs : Nat
  /-- The senders in use, besides the library's. -/
  senders : List String
  /-- Whether messages of a sender at a level pass, where that is settled. -/
  settled : Entries (String × Level) Bool
  /-- Every message, whether it passed its level or not. -/
  entries : List Entry
  /-- The lines on the error output. -/
  errors : List String
  /-- The lines of the operations log, if there ever was one. -/
  ops : Option (List String)
  deriving DecidableEq, Repr

namespace Log

/-- Nothing logged, with the given level of the library. -/
def start (level : Int) : Log := ⟨level, Level.warning.rank, false, 0, [], [], [], [], none⟩

/-- Sets the level of the library. -/
def setLevel (log : Log) (level : Int) : Log := { log with level, settled := [] }

/-- Whether the library sends a message. -/
def isOwn (log : Log) (e : Entry) : Bool := Sender.isOwn log.senders e.sender

/-- The level that a message must reach. -/
def threshold (log : Log) (e : Entry) : Int :=
  if log.isOwn e ∧ log.level ≠ 0 then log.level else log.rootLevel

/-- Whether a message passes its level. -/
def passes (log : Log) (e : Entry) : Bool :=
  (Entries.find? log.settled (e.sender, e.level)).getD (log.threshold e ≤ e.level.rank)

/-- How many operations logs take messages of this sender. -/
def opsLogsFor (log : Log) (e : Entry) : Nat := if log.isOwn e then log.opsLogs else 0

/-- The lines that a message adds to the operations log. -/
def opsLines (log : Log) (e : Entry) : List String :=
  if log.passes e ∧ Level.info.rank ≤ e.level.rank then
    List.replicate (log.opsLogsFor e) e.line
  else []

/-- The lines that a message adds to the error output. -/
def errorLines (log : Log) (e : Entry) : List String :=
  if !log.passes e then []
  else if log.console then [e.consoleLine]
  else if log.opsLogsFor e = 0 ∧ Level.warning.rank ≤ e.level.rank then [e.text]
  else []

/-- Puts a sender in use. -/
def addSender (log : Log) (name : String) : Log :=
  if log.senders.contains name then log else { log with senders := log.senders ++ [name] }

/-- Settles whether messages like this one pass. -/
def settle (log : Log) (e : Entry) : Log :=
  { log with settled := Entries.put log.settled (e.sender, e.level) (log.passes e) }

/-- Writes a message where it goes. -/
def write (log : Log) (e : Entry) : Log :=
  { log with
    entries := log.entries ++ [e]
    errors := log.errors ++ log.errorLines e
    ops := log.ops.map (· ++ log.opsLines e) }

/-- Takes a message. -/
def add (log : Log) (e : Entry) : Log := ((log.addSender e.sender).settle e).write e

/-- Prints a line on the error output. -/
def print (log : Log) (line : String) : Log := { log with errors := log.errors ++ [line] }

/-- Keeps the library to warnings. -/
def quiet (log : Log) : Log := log.setLevel Level.warning.rank

/-- Sends every message to the console. -/
def enableDebug (log : Log) : Log :=
  { log.setLevel Level.debug.rank with rootLevel := Level.debug.rank, console := true }

/-- Puts an operations log in use, and lets informations through to it. -/
def attachOps (log : Log) : Log :=
  let attached := { log with opsLogs := log.opsLogs + 1, ops := some (log.ops.getD []) }
  if log.level = 0 ∨ Level.info.rank < log.level then attached.setLevel Level.info.rank
  else attached

/-- Takes an operations log out of use. -/
def detachOps (log : Log) : Log := { log with opsLogs := log.opsLogs - 1 }

end Log

end FileTags
