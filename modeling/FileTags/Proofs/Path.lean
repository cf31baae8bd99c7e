import FileTags.Path
/-! # Paths and their texts

A path that was read has names that say where to go and hold no slash, and this stays so wherever it
is seen from (`WellFormed`).  So an absolute path is read back from its text (`parse_of_isAbsolute`): the
first name does not start with a slash, hence the slashes in front are those of the root, and the text
is cut between the names and nowhere else.
-/
namespace FileTags.Path

variable {p q : Path}

/-- The names of a path say where to go, and hold no slash. -/
def WellFormed (p : Path) : Prop :=
  ∀ name ∈ p.names, isName name.toList = true ∧ '/' ∉ name.toList

theorem wellFormed_parse (s : String) : (parse s).WellFormed := by
  intro name hname
  obtain ⟨piece, hpiece, rfl⟩ := List.mem_map.1 hname
  obtain ⟨hmem, hisName⟩ := List.mem_filter.1 hpiece
  rw [String.toList_ofList]
  exact ⟨hisName, Text.notMem_of_mem_pieces hmem⟩

theorem WellFormed.below {root : Root} {names : List String} (hp : p.WellFormed)
    (h : ∀ name ∈ names, isName name.toList = true ∧ '/' ∉ name.toList) :
    WellFormed ⟨root, p.names ++ names⟩ := fun name hname =>
  (List.mem_append.1 hname).elim (hp name) (h name)

theorem WellFormed.under (hp : p.WellFormed) (hq : q.WellFormed) : (p.under q).WellFormed := by
  rw [Path.under]
  split
  · exact hq
  · exact hp.below hq

/-- The path of a name in a directory. -/
theorem child_of_name (p : Path) {name : String} (h : parse name = ⟨.relative, [name]⟩) :
    p.child name = ⟨p.root, p.names ++ [name]⟩ := by
  rw [child, h]
  rfl

/-! ## Home directories -/

variable {homes : Homes} {first home : String} {names : List String}

/-- A path starts at a home directory: it is relative, and its first name starts with a tilde. -/
def StartsAtHome (p : Path) : Prop :=
  p.root = .relative ∧ ∃ name ∈ p.names.head?, name.toList.head? = some '~'

theorem expandHome_of_not_startsAtHome (h : ¬ p.StartsAtHome) : p.expandHome homes = .ok p := by
  rw [expandHome]
  split
  · rename_i hroot hnames
    rw [if_neg fun htilde => h ⟨hroot, _, by rw [hnames]; rfl, htilde⟩]
  · rfl

/-- A home directory that is found stands in front of the names after the first. -/
theorem expandHome_cons (htilde : first.toList.head? = some '~')
    (hfound : homes.directory first = .ok home) (hknown : (homeText home).toList.head? ≠ some '~') :
    expandHome homes ⟨.relative, first :: names⟩ =
      .ok ⟨(parse (homeText home)).root, (parse (homeText home)).names ++ names⟩ := by
  simp only [expandHome, if_pos htilde, hfound]
  exact if_neg hknown

/-- **What expanding a home can do**: it leaves a path that starts at none, and puts the home directory
that is found in front of the names after the first. -/
theorem expandHome_cases (h : p.expandHome homes = .ok q) :
    (¬ p.StartsAtHome ∧ q = p) ∨
      ∃ first names home, p = ⟨.relative, first :: names⟩ ∧ first.toList.head? = some '~' ∧
        homes.directory first = .ok home ∧ (homeText home).toList.head? ≠ some '~' ∧
        q = ⟨(parse (homeText home)).root, (parse (homeText home)).names ++ names⟩ := by
  by_cases hstart : p.StartsAtHome
  · obtain ⟨root, _⟩ := p
    obtain ⟨rfl, first, hfirst, htilde⟩ := hstart
    obtain ⟨names, rfl⟩ := List.head?_eq_some_iff.1 hfirst
    refine .inr ⟨first, names, ?_⟩
    simp only [expandHome, if_pos htilde] at h
    cases hfound : homes.directory first with
    | error f =>
      rw [hfound] at h
      cases h
    | ok home =>
      simp only [hfound] at h
      split at h
      · cases h
      · rename_i hknown
        exact ⟨home, rfl, htilde, rfl, hknown, (Except.ok.inj h).symm⟩
  · exact .inl ⟨hstart, Except.ok.inj (h.symm.trans (expandHome_of_not_startsAtHome hstart))⟩

theorem WellFormed.expandHome (hp : p.WellFormed) (h : p.expandHome homes = .ok q) :
    q.WellFormed := by
  rcases expandHome_cases h with ⟨-, rfl⟩ | ⟨first, names, home, rfl, -, -, -, rfl⟩
  · exact hp
  · -- The names after the tilde, below the home directory.
    exact (wellFormed_parse _).below fun name hname => hp name (List.mem_cons_of_mem first hname)

/-! ## The text of a path -/

/-- The characters of the names of a path, with slashes between them. -/
def body (p : Path) : List Char := ['/'].intercalate (p.names.map String.toList)

theorem isAbsolute_iff : p.isAbsolute = true ↔ p.root ≠ .relative := bne_iff_ne

theorem toList_toText (habs : p.isAbsolute = true) :
    p.toText.toList = p.root.text.toList ++ p.body := by
  rw [toText, if_neg fun h => isAbsolute_iff.1 habs h.1, String.toList_append,
    String.toList_intercalate]
  rfl

/-- The text of an absolute path starts with a slash. -/
theorem exists_slash_toText (habs : p.isAbsolute = true) : ∃ rest, p.toText.toList = '/' :: rest := by
  rw [toList_toText habs]
  cases hroot : p.root with
  | relative => exact absurd hroot (isAbsolute_iff.1 habs)
  | slash => exact ⟨p.body, rfl⟩
  | doubleSlash => exact ⟨'/' :: p.body, rfl⟩

/-- The names come back from between the slashes. -/
theorem filter_pieces_body (hp : p.WellFormed) :
    (Text.pieces '/' p.body).filter isName = p.names.map String.toList := by
  by_cases hnil : p.names = []
  · rw [body, hnil]
    rfl
  · have hpieces : Text.pieces '/' p.body = p.names.map String.toList := by
      refine Text.pieces_intercalate (fun h => hnil (List.map_eq_nil_iff.1 h)) ?_
      intro piece hpiece
      obtain ⟨name, hname, rfl⟩ := List.mem_map.1 hpiece
      exact (hp name hname).2
    rw [hpieces, List.filter_eq_self]
    intro piece hpiece
    obtain ⟨name, hname, rfl⟩ := List.mem_map.1 hpiece
    exact (hp name hname).1

/-- The first name does not start with a slash. -/
theorem body_ne_slash (hp : p.WellFormed) (rest : List Char) : p.body ≠ '/' :: rest := by
  intro hbody
  rw [body] at hbody
  cases hnames : p.names with
  | nil =>
    rw [hnames] at hbody
    cases hbody
  | cons name names =>
    obtain ⟨hisName, hslash⟩ := hp name (by rw [hnames]; exact List.mem_cons_self)
    rw [hnames, List.map_cons] at hbody
    -- Whether or not names follow, the characters of the first come first, and it has some.
    have hhead : ∃ more, name.toList ++ more = '/' :: rest := by
      cases names with
      | nil =>
        rw [List.map_nil, List.intercalate_singleton] at hbody
        exact ⟨[], by rw [List.append_nil, hbody]⟩
      | cons second names =>
        rw [List.map_cons, List.intercalate_cons_cons, List.append_assoc] at hbody
        exact ⟨_, hbody⟩
    obtain ⟨more, hmore⟩ := hhead
    cases hchars : name.toList with
    | nil =>
      rw [hchars] at hisName
      cases hisName
    | cons c cs =>
      rw [hchars, List.cons_append] at hmore
      obtain ⟨rfl, -⟩ := List.cons.inj hmore
      exact hslash (by rw [hchars]; exact List.mem_cons_self)

/-- Slashes in front of the names add no name. -/
theorem filter_pieces_slash (cs : List Char) :
    (Text.pieces '/' ('/' :: cs)).filter isName = (Text.pieces '/' cs).filter isName := by
  rw [Text.pieces, if_pos rfl, List.filter_cons_of_neg (by decide)]

theorem parse_of_toList {s : String} {root : Root} {names : List String}
    (hroot : rootOf s.toList = root)
    (hnames : (Text.pieces '/' s.toList).filter isName = names.map String.toList) :
    parse s = ⟨root, names⟩ := by
  rw [parse, hroot, hnames, List.map_map]
  refine congrArg (Path.mk root) ((List.map_congr_left fun name _ => ?_).trans (List.map_id names))
  exact String.ofList_toList

/-- **An absolute path is read back from its text.** -/
theorem parse_of_isAbsolute (hp : p.WellFormed) (habs : p.isAbsolute = true) : parse p.toText = p := by
  have hbody := filter_pieces_body hp
  have hfirst := body_ne_slash hp
  refine parse_of_toList ?_ ?_
  · rw [toList_toText habs]
    cases hroot : p.root with
    | relative => exact absurd hroot (isAbsolute_iff.1 habs)
    | slash =>
      show rootOf ('/' :: p.body) = .slash
      rw [rootOf]
      · exact fun more h => hfirst _ h
      · exact fun more h => hfirst _ h
    | doubleSlash =>
      show rootOf ('/' :: '/' :: p.body) = .doubleSlash
      rw [rootOf]
      exact fun more h => hfirst _ h
  · rw [toList_toText habs, ← hbody]
    cases hroot : p.root with
    | relative => exact absurd hroot (isAbsolute_iff.1 habs)
    | slash => exact filter_pieces_slash p.body
    | doubleSlash =>
      exact (filter_pieces_slash ('/' :: p.body)).trans (filter_pieces_slash p.body)

end FileTags.Path
