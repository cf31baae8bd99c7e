import FileTags.Query.Reader
import FileTags.Value
/-! # Failures

Everything that can go wrong, by its cause, and the text that tells a user about it.  Callers
tell failures apart by three questions: did a rule of this library refuse (`ofStore`), was a value
not acceptable (`ofValue`), did the system fail (`ofSystem`).  A failure of which none is true is a
mistake of the program that called.
-/
namespace FileTags

/-- What a storage that holds rows can be asked to do with one of them. -/
inductive RowAct where
  | read
  | write
  | delete
  deriving DecidableEq, Repr

/-- The word for an act. -/
def RowAct.word : RowAct → String
  | .read => "read"
  | .write => "write"
  | .delete => "delete"

/-- Why a database cannot use its rows. -/
inductive RowFault where
  | noTable
  /-- The file was overwritten with something else. -/
  | notDatabase
  /-- A key of a kind that no row can have. -/
  | keyKind (kind : String)
  deriving DecidableEq, Repr

/-- The text of a fault with rows. -/
def RowFault.message : RowFault → String
  | .noTable => "no such table: associations"
  | .notDatabase => "file is not a database"
  | .keyKind kind => "Error binding parameter 1: type '" ++ kind ++ "' is not supported"

/-- What can go wrong between a storage and its medium. -/
inductive StorageFault where
  | unreadableFile (path : String)
  | noTableInFile (path : String)
  | unwritableFile (path : String) (detail : Option String)
  /-- The record of a key cannot be read at all. -/
  | corruptRecord (key : String)
  /-- The record of a key can be read and is no list. -/
  | recordNotList (key : String)
  | cannotOpen (path : String) (detail : Option String)
  | closed (path : String)
  /-- The row of a key cannot be used. -/
  | row (act : RowAct) (key : String) (fault : RowFault)
  /-- The rows cannot be listed. -/
  | listing (fault : RowFault)
  /-- A fault in the words of the storage that reports it. -/
  | stated (text : String)
  deriving DecidableEq, Repr

/-- A text, with a detail after a colon if there is one. -/
def withDetail (text : String) (detail : Option String) : String :=
  match detail with
  | some d => text ++ ": " ++ d
  | none => text

/-- The text of a storage fault. -/
def StorageFault.message : StorageFault → String
  | .unreadableFile path => "Cannot read tag file " ++ path
  | .noTableInFile path => "Tag file " ++ path ++ " must contain a JSON object"
  | .unwritableFile path detail => withDetail ("Cannot write tag file " ++ path) detail
  | .corruptRecord key => "Corrupt tag record for " ++ key
  | .recordNotList key => "Corrupt tag record for " ++ key ++ ": expected a list"
  | .cannotOpen path detail => withDetail ("Cannot open tag database " ++ path) detail
  | .closed path => "Tag database is closed: " ++ path
  | .row act key fault => "Failed to " ++ act.word ++ " tags for " ++ key ++ ": " ++ fault.message
  | .listing fault => "Failed to list tagged files: " ++ fault.message
  | .stated text => text

/-- What the system can refuse. -/
inductive SystemFault where
  /-- A folder is needed where a file lies. -/
  | notAFolder (path : String)
  /-- A file is needed where a folder lies. -/
  | isAFolder (path : String)
  /-- A folder is to be made where a file lies. -/
  | alreadyThere (path : String)
  | missing (path : String)
  /-- A path, or a name in it, is longer than the system takes. -/
  | nameTooLong (path : String)
  /-- A fault in the words of the system that reports it. -/
  | stated (text : String)
  deriving DecidableEq, Repr

/-- The text of a system fault: its number, what it means, and the path. -/
def SystemFault.message : SystemFault → String
  | .notAFolder path => "[Errno 20] Not a directory: " ++ Text.quoted path
  | .isAFolder path => "[Errno 21] Is a directory: " ++ Text.quoted path
  | .alreadyThere path => "[Errno 17] File exists: " ++ Text.quoted path
  | .missing path => "[Errno 2] No such file or directory: " ++ Text.quoted path
  | .nameTooLong path => "[Errno 36] File name too long: " ++ Text.quoted path
  | .stated text => text

/-- What can be wrong with the authority of a URI. -/
inductive AuthorityFault where
  | unbalancedBrackets
  | notAnAddress (host : String)
  | shortAddressInBrackets
  | futureAddress
  | changesUnderNormalization (authority : String)
  deriving DecidableEq, Repr

/-- The text of a fault in an authority. -/
def AuthorityFault.message : AuthorityFault → String
  | .unbalancedBrackets => "Invalid IPv6 URL"
  | .notAnAddress host => Text.quoted host ++ " does not appear to be an IPv4 or IPv6 address"
  | .shortAddressInBrackets => "An IPv4 address cannot be in brackets"
  | .futureAddress => "IPvFuture address is invalid"
  | .changesUnderNormalization authority =>
    "netloc '" ++ authority ++ "' contains invalid characters under NFKC normalization"

/-- A cause of failure. -/
inductive Failure where
  /-- These entries are no tags; nothing was written. -/
  | invalidTags (entries : List Value)
  | malformedQuery (m : Query.Malformed)
  | storage (fault : StorageFault)
  | idLength
  | idCharacters (id : String)
  /-- An identity that is no file of this system. -/
  | foreignIdentity (scheme id : String)
  | authority (fault : AuthorityFault)
  | noHome
  /-- A single text where a collection of tags was expected. -/
  | bareTags (text : String)
  /-- A query that is no text but a value of this kind. -/
  | queryKind (kind : String)
  /-- A value of a kind that the operation cannot take. -/
  | wrongKind
  /-- A value that was expected to be a table and has no entries to look up. -/
  | notATable
  | configMissing (path : String)
  | configMalformed (path : String)
  | configTooNew (version : Value)
  | sweepNotTruth (value : Value)
  | unknownBackend (name : Value) (available : List String)
  | tooManyDigits (count : Nat)
  /-- Lists and tables in a text that stand inside one another too deeply. -/
  | tooDeep (container : Option Container)
  /-- A whole number that has more digits than are shown. -/
  | tooManyDigitsToShow
  | undecodable
  /-- A text with half of a pair of surrogates, which cannot be written. -/
  | unencodable
  /-- A path with a character that ends texts. -/
  | nulInPath
  | system (fault : SystemFault)
  /-- A value that was refused, in the words of whoever refused it. -/
  | refused (text : String)
  deriving Repr

namespace Query

/-- The text of a malformed query's error. -/
def Malformed.message (m : Malformed) : String :=
  let place := " at position " ++ toString m.position
  match m.reason with
  | .unexpectedEnd => "Unexpected end of input" ++ place
  | .unexpectedToken => "Unexpected token " ++ Text.quoted (m.token.getD "") ++ place
  | .expectedClosing => "Expected ')'" ++ place
  | .nestedTooDeeply =>
    "Expression nested too deeply (max " ++ toString maxNesting ++ ")" ++ place
  | .stated text => text

end Query

namespace Failure

/-- The text that tells a user what is wrong. -/
def message : Failure → String
  | .invalidTags entries =>
    "Invalid tag names (tags must be non-empty, without whitespace or any of '&|()'): "
      ++ String.intercalate ", " (Value.shownItems entries)
  | .malformedQuery m => m.message
  | .storage fault => fault.message
  | .idLength => "ID must be 1-4096 characters"
  | .idCharacters id => "ID contains invalid characters: " ++ Text.quoted id
  | .foreignIdentity scheme id =>
    "Cannot check existence of " ++ scheme ++ ": identity " ++ Text.quoted id
  | .authority fault => fault.message
  | .noHome => "Could not determine home directory."
  | .bareTags text =>
    "Tags must be a collection of names, not a string: " ++ Text.quoted text
  | .queryKind kind => "Query must be a string, not " ++ kind
  | .wrongKind => "a value is of the wrong kind"
  | .notATable => "a value is not a table"
  | .configMissing path => "Config not found: " ++ path
  | .configMalformed path => "Invalid config " ++ path
  | .configTooNew version =>
    "Config version " ++ version.toText ++ " is newer than supported (1)"
  | .sweepNotTruth value =>
    "sweep.on_list must be true or false, got " ++ value.shown
  | .unknownBackend name available =>
    "Unknown backend: " ++ name.shown ++ ". Available: "
      ++ (Value.list (available.map .text)).shown
  | .tooManyDigits count =>
    "Exceeds the limit (4300 digits) for integer string conversion: value has "
      ++ toString count ++ " digits; use sys.set_int_max_str_digits() to increase the limit"
  | .tooDeep none => "maximum recursion depth exceeded"
  | .tooDeep (some .list) =>
    "maximum recursion depth exceeded while decoding a JSON array from a unicode string"
  | .tooDeep (some .table) =>
    "maximum recursion depth exceeded while decoding a JSON object from a unicode string"
  | .tooManyDigitsToShow =>
    "Exceeds the limit (4300 digits) for integer string conversion; "
      ++ "use sys.set_int_max_str_digits() to increase the limit"
  | .undecodable => "the text is not valid UTF-8"
  | .unencodable => "the text has a surrogate without its other half"
  | .nulInPath => "embedded null byte"
  | .system fault => fault.message
  | .refused text => text

/-- The failure of reading a text, and what it is if the text is not of the form. -/
def ofReading (malformed : Failure) : ReadFault → Failure
  | .malformed => malformed
  | .tooManyDigits count => .tooManyDigits count
  | .tooDeep container => .tooDeep container
  | .halfPair => .unencodable

/-- A failure whose text shows a value, unless that has too many digits to be shown. -/
def showing (v : Value) (f : Failure) : Failure :=
  if v.isShowable then f else .tooManyDigitsToShow

/-- Whether a rule of this library refused, or its storage failed. -/
def ofStore : Failure → Bool
  | .invalidTags _ => true
  | .malformedQuery _ => true
  | .storage _ => true
  | _ => false

/-- Whether the storage failed. -/
def ofStorage : Failure → Bool
  | .storage _ => true
  | _ => false

/-- Whether the tags were refused. -/
def ofTags : Failure → Bool
  | .invalidTags _ => true
  | _ => false

/-- Whether the system failed. -/
def ofSystem : Failure → Bool
  | .configMissing _ => true
  | .system _ => true
  | _ => false

/-- Whether a value was not acceptable. -/
def ofValue : Failure → Bool
  | .storage _ => false
  | .noHome => false
  | .bareTags _ => false
  | .queryKind _ => false
  | .wrongKind => false
  | .notATable => false
  | .tooDeep _ => false
  | .configMissing _ => false
  | .system _ => false
  | _ => true

end Failure

end FileTags
