import FileTags.Proofs.FileTree
import FileTags.Proofs.Identity
import FileTags.Proofs.Spelling
import FileTags.Proofs.Store.Sweep
import FileTags.Tagger
/-! # Liveness of normalized paths

Asking whether a file is still there gives the same answer for a path and for the identity that the
path is normalized to, and that is whether there is anything where the path leads
(`alive_normalized`).  The identity is the URI of the absolute path, which has no authority, and its
path is read back as the absolute path (`location_ofPath`).  Following the absolute path from the root
comes past the current directory; from there on both walks are one, and if the directory cannot be
reached nothing in it is there, since a file is always in a folder (`leadsSomewhere_under`).  What
following names finds is said without it by `FileTree.Has` (`leadsSomewhere_iff`).

Both always get an answer in a tree that takes names and paths of any length.  A system with limits
answers if it takes the absolute path, which is the longer one (`Takes`).  All this is about texts: a file
whose name is no text has neither a path nor an identity here.

Hence the sweep of a tagger that asks so clears the identity of a tagged path just if there is nothing
where the path leads.
-/
namespace FileTags

namespace FileTree

variable {t : FileTree} {place names : List String}

/-- Every file is in a folder. -/
def Housed (t : FileTree) : Prop := ∀ file ∈ t.files, t.isFolder file.dropLast = true

theorem housed_ofPlaces (files folders : List (List String)) : (ofPlaces files folders).Housed :=
  fun _ hfile => isFolder_of_mem (List.mem_append_left _ (List.mem_map_of_mem hfile))

theorem Housed.add (h : t.Housed) (file : List String) : (t.add file).Housed := by
  intro other hother
  rcases List.mem_cons.1 hother with rfl | hother
  · exact isFolder_of_mem List.mem_cons_self
  · have hfolder := h other hother
    rw [isFolder, Bool.or_eq_true] at hfolder ⊢
    refine hfolder.imp_right fun hany => ?_
    rw [FileTree.add, List.any_cons, hany, Bool.or_true]

theorem Housed.remove (h : t.Housed) (file : List String) : (t.remove file).Housed :=
  fun other hother => h other (List.mem_filter.1 hother).1

/-! ## Following names -/

/-- Names that never go up lead below where they start, or stop above it where no folder is. -/
theorem follow_down (h : ".." ∉ names) :
    t.follow place names = .ok (place ++ names) ∨
      ∃ stop, t.follow place names = .error stop ∧ stop <+: (place ++ names).dropLast ∧
        t.isFolder stop = false := by
  induction names generalizing place with
  | nil => exact .inl (by rw [List.append_nil]; rfl)
  | cons name names ih =>
    rw [List.mem_cons, not_or] at h
    rw [follow]
    by_cases hfolder : t.isFolder place = true
    · rw [if_pos hfolder, if_neg fun hname => h.1 hname.symm, List.append_cons place name names]
      exact ih h.2
    · rw [if_neg hfolder]
      refine .inr ⟨place, rfl, ?_, Bool.eq_false_iff.2 hfolder⟩
      rw [List.dropLast_append_of_ne_nil (List.cons_ne_nil _ _)]
      exact List.prefix_append place _

theorem isFolder_of_isThere (ht : t.Housed) (h : t.isThere place = true) :
    t.isFolder place.dropLast = true := by
  rw [isThere, Bool.or_eq_true] at h
  rcases h with hfolder | hfile
  · exact isFolder_of_above (List.dropLast_prefix place) hfolder
  · exact ht place (List.contains_iff_mem.1 hfile)

/-- **A path leads somewhere from a directory if it does so once it is absolute**, whether or not
the directory itself is there. -/
theorem leadsSomewhere_under (ht : t.Housed) {base : Path} (hbase : base.isAbsolute = true)
    (hup : ".." ∉ base.names) (p : Path) :
    t.leadsSomewhere base.names (base.under p) = t.leadsSomewhere base.names p := by
  by_cases habs : p.isAbsolute = true
  · rw [Path.under, if_pos habs]
  have hjoined : Path.isAbsolute ⟨base.root, base.names ++ p.names⟩ = true := hbase
  rw [Path.under, if_neg habs, leadsSomewhere, leadsSomewhere, if_neg habs, if_pos hjoined,
    follow_append]
  rcases t.follow_down hup with hreached | ⟨stop, hstopped, habove, hnot⟩
  · rw [hreached]
    rfl
  · rw [hstopped]
    show false = _
    -- The walk stops above the directory, so neither a folder nor a file is there.
    have hparent : ¬ t.isFolder base.names.dropLast = true := fun hfolder =>
      Bool.false_ne_true (hnot.symm.trans (isFolder_of_above habove hfolder))
    cases hnames : p.names with
    | nil =>
      rw [follow]
      exact (Bool.eq_false_iff.2 fun hthere => hparent (isFolder_of_isThere ht hthere)).symm
    | cons name names =>
      have hbelow : ¬ t.isFolder base.names = true := fun hfolder =>
        hparent (isFolder_of_above (List.dropLast_prefix _) hfolder)
      rw [follow, if_neg hbelow]

/-! ## What there is at a path -/

/-- There is a folder at a place: it is the root, or lies on the way to a known folder. -/
def HasFolder (t : FileTree) (place : List String) : Prop :=
  place = [] ∨ ∃ folder ∈ t.folders, place <+: folder

/-- **There is something at an absolute path**: the places that it comes by before its own are folders,
and there is a folder or a file at its own. -/
structure Has (t : FileTree) (p : Path) : Prop where
  through : ∀ here ∈ p.parent.way, t.HasFolder here
  there : t.HasFolder p.resolved ∨ p.resolved ∈ t.files

theorem isFolder_iff : t.isFolder place = true ↔ t.HasFolder place := by
  rw [isFolder, Bool.or_eq_true, List.isEmpty_iff, List.any_eq_true, HasFolder]
  simp only [List.isPrefixOf_iff_prefix]

theorem isThere_iff : t.isThere place = true ↔ t.HasFolder place ∨ place ∈ t.files := by
  rw [isThere, Bool.or_eq_true, isFolder_iff, List.contains_iff_mem]

/-- **An absolute path leads somewhere if there is something at it.** -/
theorem leadsSomewhere_iff {p : Path} (habs : p.isAbsolute = true) (current : List String) :
    t.leadsSomewhere current p = true ↔ t.Has p := by
  rw [leadsSomewhere, if_pos habs]
  constructor
  · intro h
    cases hfollow : t.follow [] p.names with
    | error stop =>
      rw [hfollow] at h
      cases h
    | ok place =>
      obtain ⟨rfl, hfolders⟩ := follow_names_eq_ok.1 hfollow
      rw [hfollow] at h
      exact ⟨fun here hhere => isFolder_iff.1 (hfolders here hhere), isThere_iff.1 h⟩
  · rintro ⟨hthrough, hthere⟩
    rw [follow_names_eq_ok.2 ⟨rfl, fun here hhere => isFolder_iff.2 (hthrough here hhere)⟩]
    exact isThere_iff.2 hthere

/-! ## What a system can be asked for -/

/-- **The system takes an absolute path**: neither the path nor a name in it is too long. -/
structure Takes (t : FileTree) (p : Path) : Prop where
  path : ∀ most ∈ t.limits.path, p.toText.utf8ByteSize ≤ most
  names : ∀ most ∈ t.limits.name, ∀ name ∈ p.names, name.utf8ByteSize ≤ most

/-- Without limits any path is taken. -/
theorem takes_of_unlimited (h : t.limits = {}) (p : Path) : t.Takes p := by
  refine ⟨fun most hmost => ?_, fun most hmost => ?_⟩ <;> rw [h] at hmost <;> cases hmost

theorem exceeds_eq_false {limit : Option Nat} {text : String}
    (h : ∀ most ∈ limit, text.utf8ByteSize ≤ most) : exceeds limit text = false := by
  cases limit with
  | none => rfl
  | some most => exact decide_eq_false (Nat.not_lt.2 (h most rfl))

/-- A path is answered for if its text is short enough, and the names that following it comes by. -/
theorem look_of_short {current : List String} {p : Path}
    (hpath : ∀ most ∈ t.limits.path, p.toText.utf8ByteSize ≤ most)
    (hnames : ∀ most ∈ t.limits.name, ∀ name ∈ (if p.isAbsolute then [] else current) ++ p.names,
      name.utf8ByteSize ≤ most) :
    t.look current p = .ok (t.leadsSomewhere current p) := by
  have hlast : ∀ stop : List String, (t.follow (if p.isAbsolute then [] else current) p.names = .ok stop ∨
      t.follow (if p.isAbsolute then [] else current) p.names = .error stop) →
      exceeds t.limits.name (stop.getLastD "") = false := by
    intro stop hstop
    refine exceeds_eq_false fun most hmost => ?_
    rcases List.eq_nil_or_concat stop with rfl | ⟨before, last, rfl⟩
    · exact Nat.zero_le most
    · rw [List.concat_eq_append] at hstop ⊢
      rw [List.getLastD_concat]
      exact hnames most hmost last (mem_of_follow hstop (List.mem_append_right _ List.mem_cons_self))
  have hrefuses : t.refuses current p = false := by
    rw [refuses, exceeds_eq_false hpath, Bool.false_or]
    cases hfollow : t.follow (if p.isAbsolute then [] else current) p.names with
    | ok stop => exact hlast stop (.inl hfollow)
    | error stop => exact hlast stop (.inr hfollow)
  rw [look, hrefuses, if_neg Bool.false_ne_true]

/-- A path has no longer text than the absolute path that it is seen as from a directory. -/
theorem utf8ByteSize_toText_under {base : Path} (hbase : base.isAbsolute = true) (p : Path) :
    p.toText.utf8ByteSize ≤ (base.under p).toText.utf8ByteSize := by
  rw [Path.under]
  split
  · exact le_rfl
  obtain ⟨root, above⟩ := base
  obtain ⟨proot, names⟩ := p
  rename_i hrelative
  obtain rfl : proot = .relative := by
    by_contra hroot
    exact hrelative (Path.isAbsolute_iff.2 hroot)
  have habs : root ≠ .relative := Path.isAbsolute_iff.1 hbase
  have hwhole : Path.toText ⟨root, above ++ names⟩ = root.text ++ "/".intercalate (above ++ names) :=
    if_neg fun h => habs h.1
  show (Path.toText ⟨.relative, names⟩).utf8ByteSize ≤ (Path.toText ⟨root, above ++ names⟩).utf8ByteSize
  rw [hwhole, String.utf8ByteSize_append]
  by_cases hnone : names = []
  · -- The path that goes nowhere is a dot, which is no longer than a root.
    have hroot : ".".utf8ByteSize ≤ root.text.utf8ByteSize := by
      cases root with
      | relative => exact absurd rfl habs
      | slash => decide
      | doubleSlash => decide
    rw [hnone, show Path.toText ⟨.relative, []⟩ = "." from rfl]
    exact hroot.trans (Nat.le_add_right _ _)
  · have hplain : Path.toText ⟨.relative, names⟩ = "" ++ "/".intercalate names :=
      if_neg fun h => hnone h.2
    rw [hplain, String.empty_append]
    by_cases hnil : above = []
    · rw [hnil, List.nil_append]
      exact Nat.le_add_left _ _
    · rw [String.intercalate_append_of_ne_nil hnil hnone]
      simp only [String.utf8ByteSize_append]
      omega

/-- **A path is answered for if the system takes the absolute path.** -/
theorem look_of_takes {base : Path} (hbase : base.isAbsolute = true) (p : Path)
    (h : t.Takes (base.under p)) : t.look base.names p = .ok (t.leadsSomewhere base.names p) := by
  refine look_of_short (fun most hmost => ?_) fun most hmost name hname => h.names most hmost name ?_
  · exact (utf8ByteSize_toText_under hbase p).trans (h.path most hmost)
  · rw [Path.under]
    split
    · rename_i habs
      rwa [if_pos habs] at hname
    · rename_i habs
      rwa [if_neg habs] at hname

end FileTree

namespace Identity

variable {S : Surroundings} {tree : FileTree} {id identity : String}

/-! ## Where the file of an identity lies -/

/-- The parts of the URI of an absolute path: it has no authority. -/
theorem parts_ofPath {p : Path} (habs : p.isAbsolute = true) :
    Uri.parts (ofPath p) = .ok ⟨"file", "", Uri.encode p.toText.toList⟩ := by
  obtain ⟨more, hslash⟩ : ∃ more, Uri.encode p.toText.toList = '/' :: more := by
    obtain ⟨rest, hrest⟩ := Path.exists_slash_toText habs
    rw [hrest, Uri.encode_cons (by decide)]
    exact ⟨_, rfl⟩
  -- Nothing in it is passed over, and nothing ends its path.
  have hkept : (ofPath p).toList.filter (fun c => c != '\t' && c != '\r' && c != '\n') =
      (ofPath p).toList := by
    refine List.filter_eq_self.2 fun c hc => ?_
    have hno : ∀ blank, blank ≠ '%' → ¬ Uri.IsPlain blank →
        blank ∉ ['f', 'i', 'l', 'e', ':', '/', '/'] → c ≠ blank := by
      rintro blank hpercent hplain hscheme rfl
      rw [toList_ofPath] at hc
      exact (List.mem_append.1 (show c ∈ ['f', 'i', 'l', 'e', ':', '/', '/'] ++ _ from hc)).elim
        hscheme (Uri.notMem_encode hpercent hplain _)
    rw [Bool.and_eq_true, Bool.and_eq_true, bne_iff_ne, bne_iff_ne, bne_iff_ne]
    exact ⟨⟨hno _ (by decide) (by decide) (by decide), hno _ (by decide) (by decide) (by decide)⟩,
      hno _ (by decide) (by decide) (by decide)⟩
  have hpath : (Uri.encode p.toText.toList).takeWhile (fun c => c != '#' && c != '?') =
      Uri.encode p.toText.toList := by
    refine List.takeWhile_eq_self_iff.2 fun c hc => ?_
    rw [Bool.and_eq_true, bne_iff_ne, bne_iff_ne]
    refine ⟨?_, ?_⟩
    · rintro rfl
      exact Uri.notMem_encode (by decide) (by decide) _ hc
    · rintro rfl
      exact Uri.notMem_encode (by decide) (by decide) _ hc
  have hsplit : Uri.splitAuthority ('/' :: '/' :: Uri.encode p.toText.toList) =
      ([], Uri.encode p.toText.toList) := by
    rw [hslash]
    rfl
  have hempty : Uri.checkBrackets [] = .ok () ∧ Uri.checkMarks [] = .ok () := ⟨rfl, rfl⟩
  simp only [Uri.parts, hkept, scheme?_ofPath, Option.getD_some, hsplit, hempty, hpath]
  rfl

/-- **The file of the URI of a path lies at the path.** -/
theorem location_ofPath {p : Path} (hp : p.WellFormed) (habs : p.isAbsolute = true)
    (homes : Homes) : location homes (ofPath p) = .ok p := by
  have hpath : Path.parse (String.ofList (Uri.decode (Uri.encode p.toText.toList))) = p := by
    rw [Uri.decode_encode, String.ofList_toList, Path.parse_of_isAbsolute hp habs]
  rw [location, if_pos (isUri_ofPath p), parts_ofPath habs]
  dsimp only
  rw [if_neg (fun h => h rfl), if_neg (fun h => h.1 rfl), hpath]

/-- The file of a path lies at the path, below a home directory if it starts at one. -/
theorem location_path (hpath : Uri.isUri id = false) (homes : Homes) :
    location homes id = (Path.parse id).expandHome homes := by
  rw [location, hpath, if_neg Bool.false_ne_true]

theorem isAlive_of_location {p : Path} (h : location S.homes id = .ok p) :
    isAlive S tree id = tree.look (Path.parse S.current).names p := by
  rw [isAlive, h]
  rfl

/-- A path and its identity can both be asked for if the system takes the absolute path, and the answer
is whether there is anything at it. -/
theorem isAlive_normalized {p : Path} (hcurrent : (Path.parse S.current).isAbsolute = true)
    (hup : ".." ∉ (Path.parse S.current).names) (htree : tree.Housed)
    (hpath : Uri.isUri id = false) (hp : pathOf S id = .ok p) (htakes : tree.Takes p) :
    ∃ alive, isAlive S tree id = .ok alive ∧ isAlive S tree (ofPath p) = .ok alive ∧
      (alive = true ↔ tree.Has p) := by
  obtain ⟨hwell, habs⟩ := wellFormed_of_pathOf hcurrent hp
  obtain ⟨q, hq, hunder⟩ := bind_eq_ok hp
  obtain rfl : (Path.parse S.current).under q = p := Except.ok.inj hunder
  have hagain : (Path.parse S.current).under ((Path.parse S.current).under q) =
      (Path.parse S.current).under q := if_pos habs
  have hsame := FileTree.leadsSomewhere_under htree hcurrent hup q
  refine ⟨tree.leadsSomewhere (Path.parse S.current).names q, ?_, ?_, ?_⟩
  · rw [isAlive_of_location ((location_path hpath S.homes).trans hq),
      FileTree.look_of_takes hcurrent q htakes]
  · rw [isAlive_of_location (location_ofPath hwell habs S.homes),
      FileTree.look_of_takes hcurrent _ (hagain.symm ▸ htakes), hsame]
  · rw [← hsame, FileTree.leadsSomewhere_iff habs]

/-- A sweep that asks about an identity with tags removes it just if its file is gone. -/
theorem swept_iff {σ : Type} {R : σ → Storage.Contents → Prop} {t : Tagger σ}
    {m : Storage.Contents} {w : World σ} {alive : Bool} (hs : t.storage.ActsAsMap R)
    (hw : R w.state m) (htagged : m.tags identity ≠ []) (halive : t.isAlive identity = .ok alive) :
    ∃ removed, t.sweep.Ends w (.ok removed) (fun w' => R w'.state (m.without removed)) ∧
      (identity ∈ removed ↔ ¬ alive = true) := by
  obtain ⟨snapshot, -, -, hmem, hends⟩ := Store.sweep_fixed hs t.isAlive hw
  refine ⟨_, hends, ?_⟩
  rw [List.mem_filter, hmem, halive]
  cases alive with
  | true => exact iff_of_false (fun h => Bool.false_ne_true h.2) (fun h => h rfl)
  | false => exact iff_of_true ⟨htagged, rfl⟩ nofun

end Identity

end FileTags
