import FileTags.Command.Run
/-! # What a command needs to know

A command line says which files its run reads and whose presence it may ask for, so that they can be
looked at before the run.
-/
namespace FileTags.Command

namespace Setting

variable (s : Setting)

/-- The choice of a store that words make, if they ask for any work. -/
def chosenStore? (words : List String) : Option (Option String) :=
  match (s.parser words).asked with
  | .work _ => some ((s.parser words).calls.foldl OptionState.take {}).store
  | _ => none

/-- The file that the configuration on a disk names for the data. -/
def dataFile? (chosen : Option String) (disk : Disk) : Option Path :=
  let config : Action Disk Config := do
    Config.loadOrCreate s.printer (← Action.ofExcept (s.folder chosen)) s.now
  match (config.runFrom disk).1.bind (Backend.medium s.plugins) with
  | .ok (.jsonFile path) => some path
  | .ok (.database path) => some path
  | _ => none

/-- The file of the configuration and the error log. -/
def fixedFiles (chosen : Option String) : List Path :=
  ((s.folder chosen).toOption.map Config.fileOf).toList
    ++ (ErrorLog.path s.named s.surroundings.homes).toOption.toList

/-- The folder of the operations log. -/
def opsLog? (chosen : Option String) : Option Path :=
  (s.folder chosen).toOption.map (·.child Backend.opsLogName)

/-- The paths whose presence may be asked for: those of all identities in the store. -/
def probed (chosen : Option String) (disk : Disk) : List Path :=
  let keys : Action (World Host) (List String) := do
    let t ← s.openStore chosen
    World.onState t.storage.keys
  match (keys.runFrom ⟨⟨disk, none, []⟩, startLog false⟩).1 with
  | .ok ids => ids.filterMap fun id => (Identity.location s.surroundings.homes id).toOption
  | .error _ => []

end Setting

end FileTags.Command
