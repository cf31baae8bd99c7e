import FileTags.Disk
/-! # The error log

Failures that nobody expected are written down, with the time and what was going on.  The log lies
in the folder that the environment names, taken as it stands, or in the home directory.  If it
cannot be written, nothing happens.
-/
namespace FileTags.ErrorLog

/-- The name of the log. -/
def fileName : String := "tagit-errors.log"

/-- The path of the log. -/
def path (named : Option String) (homes : Homes) : Except Failure Path :=
  match named with
  | some folder => if folder.isEmpty then atHome else .ok ((Path.parse folder).child fileName)
  | none => atHome
where
  atHome : Except Failure Path :=
    return ((← (Path.parse "~").expandHome homes).child ".tagit").child fileName

/-- What is written down of a failure. -/
structure Report where
  time : String
  /-- What was going on; empty if that is not known. -/
  context : String
  /-- Where it happened, a line for each step. -/
  trace : List String
  /-- The name of the kind of failure. -/
  kind : String
  text : String
  deriving DecidableEq, Repr

/-- The text of a report. -/
def Report.render (r : Report) : String :=
  "\n" ++ String.ofList (List.replicate 60 '=') ++ "\n[" ++ r.time ++ "]"
    ++ (if r.context.isEmpty then "" else " " ++ r.context)
    ++ "\nTraceback (most recent call last):\n" ++ String.join (r.trace.map (· ++ "\n"))
    ++ r.kind ++ (if r.text.isEmpty then "" else ": " ++ r.text) ++ "\n"

/-- Adds a report to the log at a path, if that can be done. -/
def append (path : Path) (r : Report) : Action Disk Unit := do
  let act : Action Disk Unit := do
    Disk.makeFolder path.parent
    match (← get).read path with
    | .ok (.text s) => Disk.write path (.text (s ++ r.render))
    | _ => Disk.write path (.text r.render)
  let _ ← act.attempt

end FileTags.ErrorLog
