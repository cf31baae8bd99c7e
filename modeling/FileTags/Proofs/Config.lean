import FileTags.Config
import FileTags.Proofs.Disk.Touches
import FileTags.Proofs.Toml.Sections
import Mathlib
/-! # Configured stores

The configuration of a new store is written as a text (`write_fresh`) that is read back as what it
says (`read_fresh`), whatever the time is called at which the store was made.  A store is configured if
its file is there and says the configuration (`Configured`), and then whoever opens the store finds that,
as long as nobody writes the file (`Configured.touched`, `Configured.loadOrCreate`).
-/
namespace FileTags.Config

open Toml

/-- The text of a new configuration before the time, and after it. -/
def freshHead : String := "[store]\nversion = 1\ncreated = "

def freshTail : String := "\n\n[backend]\nname = \"sqlite\"\n\n[sweep]\non_list = false\n"

/-- The text of a new configuration. -/
def freshText (now : String) : String := freshHead ++ writeText now ++ freshTail

theorem write_fresh (F : Path) (now : String) :
    Toml.write (fresh F now).toFields = ⟨freshText now, none⟩ := by
  have hstore : sections "store" false (.table [("version", .int latestVersion), ("created", .text now)]) =
      [.ok "[store]\n", .ok "version = 1\n", .ok ("created" ++ " = " ++ writeText now ++ "\n")] := by
    have hversion : line "version" (.int latestVersion) = .ok "version = 1\n" := by
      have hone : (Value.int latestVersion).isShowable = true := by decide +kernel
      rw [line, literal, if_pos hone]
      cbv
    have hcreated : line "created" (.text now) = .ok ("created" ++ " = " ++ writeText now ++ "\n") := by
      rw [line, literal, show writeName "created" = "created" by decide]
      rfl
    have hheader : "[" ++ "store" ++ "]\n" = "[store]\n" := by decide
    refine (sections_of_plain ?_ (by decide)).trans ?_
    · exact List.forall_mem_cons.2 ⟨rfl, List.forall_mem_cons.2 ⟨rfl, nofun⟩⟩
    · rw [List.map_cons, List.map_cons, List.map_nil, hversion, hcreated, hheader]
  have hbackend : sections "backend" false (.table [("name", .text defaultBackend)]) =
      [.ok "[backend]\n", .ok "name = \"sqlite\"\n"] := by
    cbv
  have hsweep : sections "sweep" false (.table [("on_list", .bool false)]) =
      [.ok "[sweep]\n", .ok "on_list = false\n"] := by
    cbv
  have hchunks : sections "" false (.table (fresh F now).toFields) = [.ok "\n"].intercalate
      [[.ok "[store]\n", .ok "version = 1\n", .ok ("created" ++ " = " ++ writeText now ++ "\n")],
        [.ok "[backend]\n", .ok "name = \"sqlite\"\n"], [.ok "[sweep]\n", .ok "on_list = false\n"]] := by
    refine (sections_of_tables ?_).trans ?_
    · exact List.forall_mem_cons.2 ⟨rfl, List.forall_mem_cons.2 ⟨rfl, List.forall_mem_singleton.2 rfl⟩⟩
    · have hnames : writeName "store" = "store" ∧ writeName "backend" = "backend" ∧
          writeName "sweep" = "sweep" := by decide
      rw [← hstore, ← hbackend, ← hsweep, ← hnames.1, ← hnames.2.1, ← hnames.2.2]
      rfl
  have hhead : freshHead = "[store]\n" ++ ("version = 1\n" ++ ("created" ++ " = ")) := by decide
  have htail : freshTail = "\n" ++ ("\n" ++ ("[backend]\n" ++ ("name = \"sqlite\"\n" ++
      ("\n" ++ ("[sweep]\n" ++ "on_list = false\n"))))) := by decide
  rw [Toml.write, hchunks]
  unfold freshText
  rw [hhead, htail]
  simp only [List.intercalate_cons_cons, List.intercalate_singleton, List.cons_append, List.nil_append,
    Printed.ofChunks, String.append_assoc, String.append_empty]

/-! ## Reading it back -/

/-- What has been read when the section of the store is open, when it has its version, and when it is
read. -/
def storeOpen : Document := ⟨[("store", .table [])], [["store"]], [], [], ["store"]⟩

def storeVersioned : Document :=
  { storeOpen with root := [("store", .table [("version", .int 1)])] }

def storeRead (now : String) : Document :=
  { storeOpen with root := [("store", .table [("version", .int 1), ("created", .text now)])] }

theorem statement_store (rest : List Char) :
    statement .empty ('[' :: 's' :: 't' :: 'o' :: 'r' :: 'e' :: ']' :: rest) =
      .ok (storeOpen, rest) := by
  refine statement_of_header ["store"] (by decide) (by decide) ?_ ?_
  · cbv
  · cbv

theorem statement_version (rest : List Char) :
    statement storeOpen ('v' :: 'e' :: 'r' :: 's' :: 'i' :: 'o' :: 'n' :: ' ' :: '=' :: ' ' :: '1' ::
      '\n' :: 'c' :: 'r' :: rest) = .ok (storeVersioned, '\n' :: 'c' :: 'r' :: rest) := by
  refine statement_of_key ["version"] (.int 1) (' ' :: '1' :: '\n' :: 'c' :: 'r' :: rest) (by decide)
    (by decide) ?_ (fun fuel => ?_) ?_
  · cbv
  · cbv
  · cbv

theorem statement_created (now : String) (rest : List Char) :
    statement storeVersioned ('c' :: 'r' :: 'e' :: 'a' :: 't' :: 'e' :: 'd' :: ' ' :: '=' :: ' ' ::
      ((writeText now).toList ++ '\n' :: rest)) = .ok (storeRead now, '\n' :: rest) := by
  refine statement_of_text ["created"] now (by decide) (by decide) ?_ ?_
  · generalize (writeText now).toList = text
    cbv
  · cbv

/-- What has been read when the sections after that of the store are open, and when they are read. -/
def backendOpen (now : String) : Document :=
  ⟨(storeRead now).root ++ [("backend", .table [])], [["backend"], ["store"]], [], [], ["backend"]⟩

def backendRead (now : String) : Document :=
  { backendOpen now with
    root := (storeRead now).root ++ [("backend", .table [("name", .text "sqlite")])] }

def sweepOpen (now : String) : Document :=
  ⟨(backendRead now).root ++ [("sweep", .table [])], [["sweep"], ["backend"], ["store"]], [], [],
    ["sweep"]⟩

def sweepRead (now : String) : Document :=
  { sweepOpen now with
    root := (backendRead now).root ++ [("sweep", .table [("on_list", .bool false)])] }

theorem statement_backend (now : String) (rest : List Char) :
    statement (storeRead now) ('[' :: 'b' :: 'a' :: 'c' :: 'k' :: 'e' :: 'n' :: 'd' :: ']' :: rest) =
      .ok (backendOpen now, rest) := by
  refine statement_of_header ["backend"] (by decide) (by decide) ?_ ?_
  · cbv
  · cbv

theorem statement_name (now : String) (rest : List Char) :
    statement (backendOpen now) ('n' :: 'a' :: 'm' :: 'e' :: ' ' :: '=' :: ' ' ::
      '"' :: 's' :: 'q' :: 'l' :: 'i' :: 't' :: 'e' :: '"' :: '\n' :: rest) =
        .ok (backendRead now, '\n' :: rest) := by
  have hwritten : (writeText "sqlite").toList = ['"', 's', 'q', 'l', 'i', 't', 'e', '"'] := by
    decide
  refine statement_of_text ["name"] "sqlite" (by decide) (by decide) ?_ ?_
  · rw [hwritten]
    cbv
  · cbv

/-- The section of the sweeping opens in any document that can have it. -/
theorem statement_sweep {d d' : Document} (hopen : d.endSection.openTable ["sweep"] = some d')
    (rest : List Char) :
    statement d ('[' :: 's' :: 'w' :: 'e' :: 'e' :: 'p' :: ']' :: rest) = .ok (d', rest) := by
  refine statement_of_header ["sweep"] (by decide) (by decide) ?_ hopen
  cbv

theorem value_false (fuel : Nat) (rest : List Char) :
    value (fuel + 1) fullRoom ('f' :: 'a' :: 'l' :: 's' :: 'e' :: '\n' :: rest) =
      .ok (.bool false, '\n' :: rest) := by
  have htext : text? ('f' :: 'a' :: 'l' :: 's' :: 'e' :: '\n' :: rest) = none := by cbv
  have hmoment : moment? ('f' :: 'a' :: 'l' :: 's' :: 'e' :: '\n' :: rest) = none := by cbv
  have hbased : based? ('f' :: 'a' :: 'l' :: 's' :: 'e' :: '\n' :: rest) = none := by cbv
  have hdecimal : decimal? ('f' :: 'a' :: 'l' :: 's' :: 'e' :: '\n' :: rest) = .ok none := by cbv
  have hword : word? ('f' :: 'a' :: 'l' :: 's' :: 'e' :: '\n' :: rest) =
      some (.bool false, '\n' :: rest) := by
    have htrue : "true".toList = ['t', 'r', 'u', 'e'] := String.toList_ofList
    have hfalse : "false".toList = ['f', 'a', 'l', 's', 'e'] := String.toList_ofList
    rw [word?, words, List.findSome?_cons, List.findSome?_cons]
    dsimp only
    rw [htrue, hfalse]
    rfl
  show plain ('f' :: 'a' :: 'l' :: 's' :: 'e' :: '\n' :: rest) = _
  rw [plain, htext, hmoment, hbased, hdecimal, hword]
  rfl

theorem statement_onList {d d' : Document} (hassign : d.assign ["on_list"] (.bool false) = some d')
    (rest : List Char) :
    statement d ('o' :: 'n' :: '_' :: 'l' :: 'i' :: 's' :: 't' :: ' ' :: '=' :: ' ' ::
      'f' :: 'a' :: 'l' :: 's' :: 'e' :: '\n' :: rest) = .ok (d', '\n' :: rest) := by
  refine statement_of_key ["on_list"] (.bool false) (' ' :: 'f' :: 'a' :: 'l' :: 's' :: 'e' :: '\n' ::
    rest) (by decide) (by decide) ?_ (fun fuel => value_false fuel rest) hassign
  cbv

theorem toList_freshHead : freshHead.toList = '[' :: 's' :: 't' :: 'o' :: 'r' :: 'e' ::
    ']' :: '\n' :: 'v' :: 'e' :: 'r' :: 's' :: 'i' :: 'o' :: 'n' :: ' ' :: '=' :: ' ' :: '1' ::
    '\n' :: ['c', 'r', 'e', 'a', 't', 'e', 'd', ' ', '=', ' '] := String.toList_ofList

/-- **A new configuration is read as it was written.** -/
theorem read_fresh (F : Path) (now : String) :
    Toml.read (freshText now) = .ok (fresh F now).toFields := by
  have htail : freshTail.toList =
      '\n' :: '\n' :: '[' :: 'b' :: 'a' :: 'c' :: 'k' :: 'e' :: 'n' :: 'd' :: ']' :: '\n' ::
      'n' :: 'a' :: 'm' :: 'e' :: ' ' :: '=' :: ' ' :: '"' :: 's' :: 'q' :: 'l' :: 'i' :: 't' :: 'e' ::
      '"' :: '\n' :: '\n' :: '[' :: 's' :: 'w' :: 'e' :: 'e' :: 'p' :: ']' :: '\n' ::
      'o' :: 'n' :: '_' :: 'l' :: 'i' :: 's' :: 't' :: ' ' :: '=' :: ' ' ::
      ['f', 'a', 'l', 's', 'e', '\n'] := String.toList_ofList
  have hreturn : '\r' ∉ (freshText now).toList := by
    rw [freshText, String.toList_append, String.toList_append, toList_freshHead, htail, List.mem_append,
      List.mem_append]
    rintro ((hmem | hmem) | hmem)
    · exact absurd hmem (by decide)
    · exact return_notMem_writeText now hmem
    · exact absurd hmem (by decide)
  have hsweep : (backendRead now).endSection.openTable ["sweep"] = some (sweepOpen now) := by cbv
  have honList : (sweepOpen now).assign ["on_list"] (.bool false) = some (sweepRead now) := by cbv
  have hlines : ∀ fuel, statements (fuel + 10) .empty (freshText now).toList =
      .ok (sweepRead now) := by
    intro fuel
    rw [freshText, String.toList_append, String.toList_append, toList_freshHead, htail, List.append_assoc]
    simp only [List.cons_append, List.nil_append]
    refine (statements_of_line (statement_store _) rfl (by decide)).trans ?_
    refine (statements_of_line (statement_version _) rfl (by decide)).trans ?_
    refine (statements_of_line (statement_created now _) rfl (by decide)).trans ?_
    refine (statements_of_blank _ _ _).trans ?_
    refine (statements_of_line (statement_backend now _) rfl (by decide)).trans ?_
    refine (statements_of_line (statement_name now _) rfl (by decide)).trans ?_
    refine (statements_of_blank _ _ _).trans ?_
    refine (statements_of_line (statement_sweep hsweep _) rfl (by decide)).trans ?_
    refine (statements_of_line (statement_onList honList _) rfl (by decide)).trans ?_
    rfl
  have hlength : 9 ≤ (freshText now).toList.length := by
    rw [freshText, String.toList_append, String.toList_append, toList_freshHead, List.length_append,
      List.length_append]
    simp only [List.length_cons]
    omega
  obtain ⟨fuel, hfuel⟩ := Nat.exists_eq_add_of_le' hlength
  rw [Toml.read, joinLineEnds_of_notMem hreturn, hfuel, hlines]
  rfl

/-! ## The file on the disk -/

open Disk

variable {F : Path} {c : Config} {d e : Disk} {place : List String} {content : Content}

/-- What a content is loaded as. -/
def ofContent (F : Path) : Content → Except Failure Config
  | .text s =>
    match Toml.read s with
    | .ok root => ofFields F root
    | .error fault => .error (.ofReading (.configMalformed (fileOf F).toText) fault)
  | _ => .error .undecodable

/-- What the file holds is what is loaded. -/
theorem load_of_file (hplace : d.filePlace (fileOf F) = .ok place)
    (hfile : Entries.find? d.files place = some content) :
    (load F).runFrom d = (ofContent F content, d) := by
  have hget : (get : Action Disk Disk).runFrom d = (.ok d, d) := rfl
  have hthere : d.has (fileOf F) = .ok true := by
    rw [has_of_filePlace hplace, isFile_of_find? hfile]
  rw [load, Action.runFrom_bind, hget]
  dsimp only
  rw [hthere, read_eq_ok.2 ⟨_, hplace, hfile⟩]
  cases content with
  | text s =>
    simp only [Action.runFrom_bind, Action.runFrom_ofExcept, Bool.not_true, Bool.false_eq_true, if_false]
    cases hs : Toml.read s with
    | ok root => simp only [ofContent, hs, Action.runFrom_ofExcept]
    | error fault => simp only [ofContent, hs, Action.runFrom_throw]
  | bytes | database => rfl

/-- **A store is configured**: its file is there and says this configuration. -/
structure Configured (F : Path) (c : Config) (d : Disk) : Prop where
  place : d.filePlace (fileOf F) = .ok (fileOf F).resolved
  text : ∃ s root, Entries.find? d.files (fileOf F).resolved = some (.text s) ∧
    Toml.read s = .ok root ∧ ofFields F root = .ok c

theorem folder_of_ofFields {root : Entries String Value} (h : ofFields F root = .ok c) :
    c.folder = F := by
  simp only [ofFields, bind, Except.bind] at h
  split at h
  · cases h
  split at h
  · cases h
  split at h
  · cases h
  split at h
  · cases h
  split at h
  · obtain rfl := Except.ok.inj h
    rfl
  · cases h

namespace Configured

theorem folder (h : Configured F c d) : c.folder = F := by
  obtain ⟨s, root, -, -, hc⟩ := h.text
  exact folder_of_ofFields hc

theorem isFile (h : Configured F c d) : d.isFile (fileOf F).resolved = true := by
  obtain ⟨s, root, hfile, -⟩ := h.text
  exact isFile_of_find? hfile

/-- It stays so if the file is not written. -/
theorem touched {files folders : List (List String)} (h : Configured F c d)
    (ht : Touches files folders d e) (hfile : (fileOf F).resolved ∉ files) : Configured F c e := by
  obtain ⟨s, root, hs, hroot⟩ := h.text
  exact ⟨ht.filePlace h.place h.isFile, s, root, ht.find hfile hs, hroot⟩

theorem load (h : Configured F c d) : (load F).runFrom d = (.ok c, d) := by
  obtain ⟨s, root, hs, hroot, hc⟩ := h.text
  rw [load_of_file h.place hs, ofContent, hroot]
  exact congrArg (·, d) hc

/-- **Whoever opens the store finds the configuration**, and changes nothing. -/
theorem loadOrCreate (h : Configured F c d) (printer : Printer) (now : String) :
    (loadOrCreate printer F now).runFrom d = (.ok c, d) := by
  have hget : (get : Action Disk Disk).runFrom d = (.ok d, d) := rfl
  have hthere : d.has (fileOf F) = .ok true := by rw [has_of_filePlace h.place, h.isFile]
  rw [Config.loadOrCreate, Action.runFrom_bind, hget]
  dsimp only
  rw [hthere]
  exact h.load

end Configured

/-- Loading that succeeds has found the file, and changed nothing. -/
theorem configured_of_load (h : (load F).runFrom d = (.ok c, e)) : e = d ∧ Configured F c d := by
  rw [load] at h
  obtain ⟨d₀, _, hget, h⟩ := Action.exists_of_bind_ok h
  cases hget
  obtain ⟨there, _, hthere, h⟩ := Action.exists_of_bind_ok h
  obtain rfl := congrArg Prod.snd hthere
  cases there with
  | false => cases h
  | true =>
    obtain ⟨content, _, hread, h⟩ := Action.exists_of_bind_ok h
    obtain rfl := congrArg Prod.snd hread
    obtain ⟨place, hplace, hfile⟩ := read_eq_ok.1 (congrArg Prod.fst hread)
    obtain rfl := resolved_of_filePlace hplace
    cases content with
    | bytes bs => cases h
    | database rows => cases h
    | text s =>
      dsimp only at h
      cases hs : Toml.read s with
      | error fault =>
        rw [hs] at h
        cases h
      | ok root =>
        rw [hs] at h
        exact ⟨(congrArg Prod.snd h).symm, hplace, s, root, hfile, hs, congrArg Prod.fst h⟩

end FileTags.Config
