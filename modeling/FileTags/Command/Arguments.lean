/-! # Command lines

Reading a command line calls what the options that hold for every command set, and then says what the
line asks for.  What the calls have set stays until a later call sets it again (`OptionState`).  What
reads command lines is not part of this library, and is given (`Parser`); one reader is defined here
(`parse`).

A command line is options, the name of a command, and the words of that command.  Options that hold
for every command come before its name; those of a command may come anywhere among its words.  An
option is a name after two dashes or a letter after one; letters can be run together.  A value is
the text after an equals sign, the rest of the letters, or else the next word, whatever it looks
like.  After two dashes alone nothing is an option.
-/
namespace FileTags.Command

/-- An option that is understood. -/
structure OptionForm where
  name : String
  letter : Option Char
  takesValue : Bool
  deriving DecidableEq, Repr

/-- An option as it was given, with its value if it takes one. -/
structure Given where
  name : String
  value : Option String
  deriving DecidableEq, Repr

/-- The options that a single word gives, and the option whose value is still to come. -/
structure WordReading where
  given : List Given
  pending : Option String
  deriving DecidableEq, Repr

/-- What the words of a command say: its options in their order, and its other words. -/
structure Reading where
  given : List Given
  words : List String
  deriving DecidableEq, Repr

namespace Reading

/-- Whether an option was given. -/
def has (r : Reading) (name : String) : Bool := r.given.any (·.name == name)

/-- The values that an option was given, in order. -/
def values (r : Reading) (name : String) : List String :=
  (r.given.filter (·.name == name)).filterMap Given.value

end Reading

/-- Whether a word gives options. -/
def isOptionWord (word : String) : Bool := word.startsWith "-" && word != "-"

/-- Reads letters that are run together. -/
def readLetters (forms : List OptionForm) : List Char → Option WordReading
  | [] => some ⟨[], none⟩
  | c :: rest => do
    let form ← forms.find? (·.letter == some c)
    if form.takesValue then
      if rest.isEmpty then return ⟨[], some form.name⟩
      else return ⟨[⟨form.name, some (String.ofList rest)⟩], none⟩
    else
      let later ← readLetters forms rest
      return ⟨⟨form.name, none⟩ :: later.given, later.pending⟩

/-- The name before the first equals sign, and the value after it if there is such a sign. -/
def splitValue (word : List Char) : List Char × Option (List Char) :=
  match word.span (· != '=') with
  | (name, _ :: value) => (name, some value)
  | (name, []) => (name, none)

/-- Reads a word that gives options; nothing if it cannot be understood. -/
def readOptionWord (forms : List OptionForm) (word : String) : Option WordReading :=
  let (name, value) := splitValue word.toList
  match forms.find? (·.name.toList == name) with
  | some form =>
    match form.takesValue, value with
    | true, some v => some ⟨[⟨form.name, some (String.ofList v)⟩], none⟩
    | true, none => some ⟨[], some form.name⟩
    | false, none => some ⟨[⟨form.name, none⟩], none⟩
    | false, some _ => none
  | none => if word.startsWith "--" then none else readLetters forms (word.toList.drop 1)

/-- Reads words, the first of which is the value of an option if that is still to come.  Options may
come anywhere, or all before the first other word.  Nothing if they cannot be understood. -/
def readWords (forms : List OptionForm) (anywhere : Bool) (pending : Option String) :
    List String → Option Reading
  | [] => if pending.isSome then none else some ⟨[], []⟩
  | word :: rest =>
    match pending with
    | some name => do
      let later ← readWords forms anywhere none rest
      return { later with given := ⟨name, some word⟩ :: later.given }
    | none =>
      -- Everything after two dashes is a word, whatever it looks like.
      if word = "--" then some ⟨[], rest⟩
      else if isOptionWord word then do
        let first ← readOptionWord forms word
        let later ← readWords forms anywhere first.pending rest
        return { later with given := first.given ++ later.given }
      else if anywhere then do
        let later ← readWords forms anywhere none rest
        return { later with words := word :: later.words }
      else some ⟨[], word :: rest⟩

/-- What a user asks of a store. -/
inductive Request where
  /-- To set the tags of a file, or to add to them; each text may hold several tags. -/
  | tag (id : String) (texts : List String) (add : Bool)
  /-- To take tags from a file, or all of them if none are named. -/
  | untag (id : String) (tags : List String)
  | tagsOf (id : String)
  | files
  | groups
  | find (query : String)
  | move (old new : String)
  | sweep
  deriving DecidableEq, Repr

/-- What is set for every command, by the command lines that were read so far. -/
structure OptionState where
  /-- Whether every message is told. -/
  verbose : Bool := false
  /-- Whether to answer with data rather than with lines. -/
  asData : Bool := false
  /-- The folder of the store, if it is named. -/
  store : Option String := none
  deriving DecidableEq, Repr

/-- What is called for an option when a command line is read, with the value that the line gives it or
else its default. -/
inductive OptionCall where
  | verbose (on : Bool)
  | asData (on : Bool)
  | store (folder : Option String)
  deriving DecidableEq, Repr

/-- What a call sets.  Telling every message is never turned off again. -/
def OptionState.take (o : OptionState) : OptionCall → OptionState
  | .verbose on => { o with verbose := o.verbose || on }
  | .asData on => { o with asData := on }
  | .store folder => { o with store := folder }

/-- What a command line asks for. -/
inductive Asked where
  /-- It cannot be understood. -/
  | misuse
  | help
  | version
  | work (request : Request)
  deriving DecidableEq, Repr

/-- What comes of reading a command line: the calls that are made for its options, and what it asks
for. -/
structure LineReading where
  calls : List OptionCall
  asked : Asked
  deriving DecidableEq, Repr

/-- What reads command lines. -/
abbrev Parser := List String → LineReading

/-! ## A reader of command lines -/

/-- The option that asks for help. -/
def helpForm : OptionForm := ⟨"--help", none, false⟩

/-- The options that hold for every command. -/
def commonForms : List OptionForm :=
  [⟨"--verbose", some 'v', false⟩, ⟨"--json", some 'j', false⟩, ⟨"--version", none, false⟩,
    ⟨"--store", some 's', true⟩, helpForm]

/-- The commands with the options of each. -/
def commands : List (String × List OptionForm) :=
  [("tag", [⟨"--add", some 'a', false⟩, helpForm]),
    ("untag", [⟨"--tag", some 't', true⟩, helpForm]),
    ("show", [helpForm]), ("list", [helpForm]), ("tags", [helpForm]), ("find", [helpForm]),
    ("mv", [helpForm]), ("sweep", [helpForm])]

/-- The request of a command with its options and words; nothing if it has too few or too many. -/
def request? (command : String) (r : Reading) : Option Request :=
  match command, r.words with
  | "tag", id :: text :: texts => some (.tag id (text :: texts) (r.has "--add"))
  | "untag", [id] => some (.untag id (r.values "--tag"))
  | "show", [id] => some (.tagsOf id)
  | "list", [] => some .files
  | "tags", [] => some .groups
  | "find", [query] => some (.find query)
  | "mv", [old, new] => some (.move old new)
  | "sweep", [] => some .sweep
  | _, _ => none

/-- What is asked by an option that does away with the rest; the first of them counts. -/
def announcement? (r : Reading) : Option Asked :=
  r.given.findSome? fun g =>
    if g.name = "--version" then some .version
    else if g.name = "--help" then some .help
    else none

/-- The names of the options that hold for every command: those that are given first, in their order. -/
def callOrder (r : Reading) : List String :=
  ((r.given.map Given.name) ++ commonForms.map OptionForm.name).eraseDups

/-- The calls for the options of a reading, with the store that the environment names.  Of several stores
the last counts.  Nothing is called after an option that does away with the rest. -/
def callsOf (named : Option String) (r : Reading) : List OptionCall :=
  let order := (callOrder r).takeWhile fun name =>
    !((name = "--version" || name = "--help") && r.has name)
  order.filterMap fun name =>
    if name = "--verbose" then some (.verbose (r.has name))
    else if name = "--json" then some (.asData (r.has name))
    else if name = "--store" then
      some (.store ((r.values name).getLast?.or (named.filter (!·.isEmpty))))
    else none

/-- What the words after the common options ask for.  If they start with no command, an option among
them that does away with the rest still counts. -/
def readCommand : List String → Asked
  | [] => .misuse
  | command :: rest =>
    match commands.lookup command with
    | none => ((readWords commonForms false none (command :: rest)).bind announcement?).getD .misuse
    | some forms =>
      match readWords forms true none rest with
      | none => .misuse
      | some r =>
        if r.has "--help" then .help
        else (request? command r).elim .misuse .work

/-- Reads a command line, where the environment may name a store. -/
def parse (named : Option String) : Parser := fun words =>
  match readWords commonForms false none words with
  | none => ⟨[], .misuse⟩
  | some r => ⟨callsOf named r, (announcement? r).getD (readCommand r.words)⟩

end FileTags.Command
