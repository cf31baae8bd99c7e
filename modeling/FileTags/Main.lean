import FileTags.Command.Needs
import FileTags.Storage.DatabaseFile
import Std.Time
/-! # The command line

Looks at the files that a command needs, runs the command on them, writes back what changed, and
prints the outcome.
-/
namespace FileTags.CommandLine

open FileTags.Command

/-- Puts a file, and what lies on the way to it, onto a disk. -/
def lookAt (disk : Disk) (path : Path) : IO Disk := do
  let mut disk := disk
  let lengths := List.range (path.names.length + 1)
  let places := lengths.map fun n => Path.mk path.root (path.names.take n)
  let current ← IO.currentDir
  for place in places do
    let file := current / place.toText
    if ← file.isDir then
      disk := disk.addFolder place.resolved
    else if ← file.pathExists then
      disk := disk.put place.resolved (Content.ofBytes (← IO.FS.readBinFile file))
  return disk

/-- Writes back the folders and the files that are new or have changed. -/
def writeBack (before after : Disk) : IO Unit := do
  let current ← IO.currentDir
  let textOf (names : List String) := (Path.mk .slash names).toText
  for folder in after.folders do
    if !before.folders.contains folder then
      IO.FS.createDirAll (current / textOf folder)
  for (names, content) in after.files do
    let bytes := content.toBytes
    let old := (Entries.find? before.files names).map Content.toBytes
    if old.map ByteArray.data != some bytes.data then
      IO.FS.writeBinFile (current / textOf names) bytes

/-- Adds lines to the operations log, each with the time. -/
def appendOps (path : Path) (time : String) (lines : List String) : IO Unit := do
  if !lines.isEmpty then
    let log ← IO.FS.Handle.mk ((← IO.currentDir) / path.toText) .append
    for line in lines do
      log.putStrLn (time ++ " " ++ line)

/-- The time now. -/
def currentMoment : IO Moment := do
  let time ← Std.Time.Timestamp.now
  return .ofEpoch (time.toNanosecondsSinceUnixEpoch.val / 1000).toNat

/-- The home directory of a user in the lines of the user table: the sixth of the fields that colons
part. -/
def homeIn (table : Array String) (user : String) : Option String :=
  table.toList.findSome? fun line =>
    match line.splitOn ":" with
    | name :: _ :: _ :: _ :: _ :: home :: _ => if name == user then some home else none
    | _ => none

/-- The home directories; a tilde for one's own says that it is not known. -/
def homeDirectories : IO Homes := do
  let table ← (IO.FS.lines "/etc/passwd").catchExceptions fun _ => return #[]
  return ⟨(← IO.getEnv "HOME").getD "~", homeIn table⟩

/-- What the environment says. -/
def setting (now : Moment) : IO Setting := do
  let named ← IO.getEnv "TAGIT_STORE_PATH"
  return {
    surroundings := ⟨(← IO.currentDir).toString, ← homeDirectories⟩
    named
    isThere := fun _ => .ok false
    now := now.stamp
    parser := parse named
    echo := echoLine (← (← IO.getStdout).isTty)
    echoError := written (← (← IO.getStderr).isTty)
    printer := Toml.write
    plugins := [] }

/-- The disk with what a command may read, and which of the paths it may ask for are there. -/
def survey (s : Setting) (chosen : Option String) : IO (Disk × List Path) := do
  let mut disk := Disk.empty
  for path in s.fixedFiles chosen ++ (s.opsLog? chosen).toList do
    disk ← lookAt disk path
  for path in (s.dataFile? chosen disk).toList do
    disk ← lookAt disk path
  let current ← IO.currentDir
  let there ← (s.probed chosen disk).filterM fun path => (current / path.toText).pathExists
  return (disk, there)

/-- Runs a command line. -/
def start (words : List String) : IO UInt32 := do
  let now ← currentMoment
  let s ← setting now
  let chosen := s.chosenStore? words
  let (disk, there) ← match chosen with
    | some chosen => survey s chosen
    | none => pure (Disk.empty, [])
  let verbose := (← IO.getEnv "TAGIT_VERBOSE") == some "1"
  let finished := run { s with isThere := fun path => .ok (there.contains path) } words { verbose } disk
  writeBack disk finished.disk
  for path in (chosen.bind s.opsLog?).toList do
    appendOps path now.logStamp finished.ops
  for line in finished.outcome.errors do
    IO.eprintln line
  IO.print finished.outcome.output
  return finished.outcome.status

end FileTags.CommandLine

/-- Runs the program. -/
def main (words : List String) : IO UInt32 := FileTags.CommandLine.start words
