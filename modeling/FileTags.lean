import FileTags.Main
import FileTags.Storage.Faulty
import FileTags.Proofs.Query.Grammar
import FileTags.Proofs.Query.Reading
import FileTags.Proofs.Query.Refusal
import FileTags.Proofs.Query.Rendering
import FileTags.Proofs.Query.Depth
import FileTags.Proofs.Query.Names
import FileTags.Proofs.Query.Tokens
import FileTags.Proofs.Storage.Agreement
import FileTags.Proofs.Store.Faults
import FileTags.Proofs.Store.Index
import FileTags.Proofs.Store.Rename
import FileTags.Proofs.Store.Sweep
import FileTags.Proofs.Tag.Validation
import FileTags.Proofs.Tag.Deduplication
import FileTags.Proofs.Tag.Commas
import FileTags.Proofs.Tagger.Refusals
import FileTags.Proofs.Tagger.Search
import FileTags.Proofs.Tagger.Groups
import FileTags.Proofs.Tagger.Requests
import FileTags.Proofs.Tagger.Browsing
import FileTags.Proofs.Tagger.Transpose
import FileTags.Proofs.Tagger.Amending
import FileTags.Proofs.Tagger.Growth
import FileTags.Proofs.Tagger.Backends
import FileTags.Proofs.Tagger.Interleaving
import FileTags.Proofs.Liveness
import FileTags.Proofs.Spelling
import FileTags.Proofs.Command.Calls
import FileTags.Proofs.Disk.Touches
import FileTags.Proofs.Storage.DataFile
import FileTags.Proofs.Storage.OneKey
import FileTags.Proofs.Storage.Damage
import FileTags.Proofs.Storage.Media
import FileTags.Proofs.Toml.Text
import FileTags.Proofs.Config
import FileTags.Proofs.Config.Reporting
import FileTags.Proofs.Config.Saving
import FileTags.Proofs.ErrorLog
import FileTags.Proofs.Log
import FileTags.Proofs.Command.Opening
import FileTags.Proofs.Command.Session
