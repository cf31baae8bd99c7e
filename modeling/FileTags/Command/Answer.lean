import FileTags.Command.Arguments
import FileTags.Tagger
/-! # Answers to requests

Each request is one or two operations of a tagger, and its answer is the messages that they make.
-/
namespace FileTags.Command

variable {σ : Type} (t : Tagger σ)

/-- The text for a search that finds nothing. -/
def noMatches : String := "No matches."

/-- What is said about tags that were to move to a file. -/
def moveText (asData moved : Bool) (id : String) : String :=
  if asData then Json.write .compactAscii (.table [("moved", .bool moved), ("id", .text id)])
  else if moved then "Moved tags to " ++ id
  else "No tags moved."

/-- What is said about files that were swept: how many they are, and a message for each. -/
def sweepMessages (asData : Bool) (ids : List String) : List String :=
  if asData then [Json.write .compactAscii (.list (ids.map .text))]
  else ("Removed tags of " ++ toString ids.length ++ " missing file(s).") :: ids.map ("  " ++ ·)

/-- The names of tags as a value. -/
def tagValue (names : List String) : Value := .list (names.map .text)

/-- The messages that answer a request, with data or with lines. -/
def answer (asData : Bool) : Request → Action (World σ) (List String)
  | .tag id texts add => do
    let file ← t.tag id (tagValue (texts.flatMap Tag.split)) (!add)
    return [← Action.ofExcept (Listing.files [file] asData Listing.noFiles)]
  | .untag id tags => do
    let file ← t.untag id (if tags.isEmpty then none else some (tagValue tags))
    return [← Action.ofExcept (Listing.files [file] asData Listing.noFiles)]
  | .tagsOf id => do
    let file ← t.get id
    return [← Action.ofExcept (Listing.file file asData)]
  | .files => do
    let files ← t.files
    return [← Action.ofExcept (Listing.files files asData Listing.noFiles)]
  | .groups => return [Listing.groups (← t.tags) asData]
  | .find query => do
    let files ← t.find query
    return [← Action.ofExcept (Listing.files files asData noMatches)]
  | .move old new => do
    let moved ← t.renamed old new
    let file ← t.get new
    return [moveText asData moved file.id]
  | .sweep => return sweepMessages asData (← t.sweep)

/-- Whether a request can fail in a way that its user is to be told of: one that takes texts from
the user may be refused them, the others fail only with the store. -/
def expects : Request → Failure → Bool
  | .files, f => f.ofStore
  | .groups, f => f.ofStore
  | .sweep, f => f.ofStore
  | _, f => f.ofStore || f.ofValue

end FileTags.Command
