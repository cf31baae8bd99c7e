import FileTags.Proofs.Identity
import FileTags.Proofs.Path
/-! # Spellings of a path

Two texts that are no URIs have one identity exactly if they lead to one path
(`one_identity_per_path`).  What a text leads to is said here without the reader of paths.

* A text spells a path if the slashes in front are those of the root, and the names of the path are
  what stands between slashes, less the pieces that say nothing (`Path.Spells`).  Every text spells
  one path, and that is the one which it is read as (`Path.spells_iff`).
* A spelled path may start at the home directory, or else at the current one
  (`Identity.Expands`, `Identity.LeadsTo`).  Normalizing goes to the path that a text leads to
  (`Identity.leadsTo_iff`).

From there the identity loses nothing: the bytes of the path's text come back from the URI, and an
absolute path comes back from its text (`Identity.ofPath_injective`).
-/
namespace FileTags

/-- The pieces joined by the character are the text. -/
theorem Text.intercalate_pieces (separator : Char) (cs : List Char) :
    [separator].intercalate (pieces separator cs) = cs := by
  induction cs with
  | nil => rfl
  | cons c cs ih =>
    obtain ⟨p, ps, hp⟩ := List.exists_cons_of_ne_nil (pieces_ne_nil separator cs)
    rw [hp] at ih
    by_cases hc : c = separator
    · subst hc
      rw [pieces, if_pos rfl, hp, List.intercalate_cons_cons, ih]
      rfl
    · rw [pieces, if_neg hc, hp, List.headD_cons, List.tail_cons]
      cases ps with
      | nil => rw [List.intercalate_singleton] at ih ⊢; rw [ih]
      | cons q qs => rw [List.intercalate_cons_cons] at ih ⊢; simp [← ih]

namespace Path

/-- **A text spells a path**: the slashes in front say where it starts, and between slashes stand its
names, among pieces that are empty or a single dot. -/
structure Spells (text : String) (p : Path) : Prop where
  absolute : p.root ≠ .relative ↔ ['/'] <+: text.toList
  doubleSlash : p.root = .doubleSlash ↔ ['/', '/'] <+: text.toList ∧ ¬ ['/', '/', '/'] <+: text.toList
  names : ∃ pieces : List String, "/".intercalate pieces = text ∧
    (∀ piece ∈ pieces, '/' ∉ piece.toList) ∧
    pieces.filter (fun piece => piece ≠ "" ∧ piece ≠ ".") = p.names

theorem rootOf_ne_relative (cs : List Char) : rootOf cs ≠ .relative ↔ ['/'] <+: cs := by
  fun_cases rootOf cs <;> simp_all [List.cons_prefix_iff]

theorem rootOf_eq_doubleSlash (cs : List Char) :
    rootOf cs = .doubleSlash ↔ ['/', '/'] <+: cs ∧ ¬ ['/', '/', '/'] <+: cs := by
  fun_cases rootOf cs <;> simp_all [List.cons_prefix_iff]

/-- Two paths that start alike have the same root. -/
theorem root_eq_of_iff {root root' : Root} (habs : root ≠ .relative ↔ root' ≠ .relative)
    (hdouble : root = .doubleSlash ↔ root' = .doubleSlash) : root = root' := by
  cases root <;> cases root' <;> simp_all

theorem isName_toList (piece : String) :
    isName piece.toList = decide (piece ≠ "" ∧ piece ≠ ".") := by
  have hdot : piece = "." ↔ piece.toList = ['.'] := by
    rw [← String.toList_inj]
    rfl
  have hempty : piece = "" ↔ piece.toList = [] := String.toList_eq_nil_iff.symm
  rw [Bool.eq_iff_iff, decide_eq_true_eq, ne_eq, ne_eq, hdot, hempty, isName, Bool.and_eq_true,
    Bool.not_eq_true', List.isEmpty_eq_false_iff, bne_iff_ne]

/-- The pieces of a text, filtered as texts or as characters, are the same names. -/
theorem names_eq_of_pieces {text : String} {pieces : List String}
    (htext : "/".intercalate pieces = text) (hno : ∀ piece ∈ pieces, '/' ∉ piece.toList) :
    (parse text).names = pieces.filter fun piece => piece ≠ "" ∧ piece ≠ "." := by
  have hchars : text.toList = ['/'].intercalate (pieces.map String.toList) := by
    rw [← htext, String.toList_intercalate]
    rfl
  have hpieces : (Text.pieces '/' text.toList).filter isName =
      (pieces.map String.toList).filter isName := by
    by_cases hnil : pieces = []
    · subst hnil
      rw [hchars]
      rfl
    · rw [hchars, Text.pieces_intercalate (mt List.map_eq_nil_iff.1 hnil)]
      intro piece hpiece
      obtain ⟨name, hname, rfl⟩ := List.mem_map.1 hpiece
      exact hno name hname
  have hback : String.ofList ∘ String.toList = id := funext fun _ => String.ofList_toList
  show ((Text.pieces '/' text.toList).filter isName).map String.ofList = _
  rw [hpieces, List.filter_map, List.map_map, hback, List.map_id]
  exact List.filter_congr fun piece _ => isName_toList piece

theorem spells_parse (text : String) : Spells text (parse text) where
  absolute := rootOf_ne_relative text.toList
  doubleSlash := rootOf_eq_doubleSlash text.toList
  names := by
    have htext : "/".intercalate ((Text.pieces '/' text.toList).map String.ofList) = text := by
      rw [← String.toList_inj, String.toList_intercalate, List.map_map]
      simpa using Text.intercalate_pieces '/' text.toList
    have hno : ∀ piece ∈ (Text.pieces '/' text.toList).map String.ofList, '/' ∉ piece.toList := by
      intro piece hpiece
      obtain ⟨cs, hcs, rfl⟩ := List.mem_map.1 hpiece
      rw [String.toList_ofList]
      exact Text.notMem_of_mem_pieces hcs
    exact ⟨_, htext, hno, (names_eq_of_pieces htext hno).symm⟩

/-- **Every text spells one path**, and is read as it. -/
theorem spells_iff {text : String} {p : Path} : Spells text p ↔ p = parse text := by
  constructor
  · rintro ⟨habs, hdouble, pieces, htext, hno, hnames⟩
    obtain ⟨root, names⟩ := p
    have hroot : root = (parse text).root :=
      root_eq_of_iff (habs.trans (rootOf_ne_relative _).symm)
        (hdouble.trans (rootOf_eq_doubleSlash _).symm)
    have hread : names = (parse text).names := hnames.symm.trans (names_eq_of_pieces htext hno).symm
    rw [hroot, hread]
  · rintro rfl
    exact spells_parse text

/-- A text that starts with a slash is an absolute path. -/
theorem isAbsolute_parse {text : String} :
    (parse text).isAbsolute = true ↔ ['/'] <+: text.toList :=
  isAbsolute_iff.trans (rootOf_ne_relative text.toList)

end Path

namespace Identity

open FileTags.Path (Spells homeText)

/-! ## Where a spelling leads -/

/-- **Whose home a name asks for**: a tilde alone for one's own, and a tilde and a name for that of the
user who is called so. -/
inductive Asks (homes : Homes) : String → String → Prop where
  | own : Asks homes "~" homes.own
  | ofUser {user home : String} (named : user ≠ "") (sayable : '\x00' ∉ user.toList)
      (known : homes.ofUser user = some home) : Asks homes ("~" ++ user) home

/-- **A text with its home expanded.**  If the first name of a relative path starts with a tilde, the
home directory that it asks for takes its place; the text of the directory must not start with one
itself. -/
inductive Expands (homes : Homes) (text : String) : Path → Prop where
  | stays {p : Path} (spelled : Spells text p)
      (plain : p.root = .relative → ∀ name ∈ p.names.head?, name.toList.head? ≠ some '~') :
      Expands homes text p
  | home {first home : String} {base : Path} {names : List String}
      (spelled : Spells text ⟨.relative, first :: names⟩) (asked : Asks homes first home)
      (known : (homeText home).toList.head? ≠ some '~') (base_spelled : Spells (homeText home) base) :
      Expands homes text ⟨base.root, base.names ++ names⟩

/-- **A text leads to a path**: the one it spells with its home expanded, below the current directory
if that is relative. -/
inductive LeadsTo (s : Surroundings) (text : String) : Path → Prop where
  | absolute {p : Path} (expanded : Expands s.homes text p) (rooted : p.root ≠ .relative) :
      LeadsTo s text p
  | below {base : Path} {names : List String} (expanded : Expands s.homes text ⟨.relative, names⟩)
      (base_spelled : Spells s.current base) : LeadsTo s text ⟨base.root, base.names ++ names⟩

variable {homes : Homes} {first home : String}

/-- A name with a tilde in front is the tilde and what follows it. -/
theorem eq_tilde_append (h : first.toList.head? = some '~') :
    first = "~" ++ String.ofList first.toList.tail := by
  obtain ⟨rest, hrest⟩ := List.head?_eq_some_iff.1 h
  rw [← String.toList_inj, hrest]
  simp

/-- **The directory that is found for a name is the one that the name asks for.** -/
theorem asks_iff : Asks homes first home ↔
    first.toList.head? = some '~' ∧ homes.directory first = .ok home := by
  constructor
  · rintro (_ | ⟨hnamed, hsayable, hknown⟩)
    · exact ⟨rfl, if_pos rfl⟩
    · rename_i user
      have htail : ("~" ++ user).toList = '~' :: user.toList := String.toList_append ..
      have hmore : "~" ++ user ≠ "~" := fun h => hnamed <| by
        rw [← String.toList_inj, htail] at h
        exact String.toList_eq_nil_iff.1 (List.cons.inj h).2
      have hnul : ("~" ++ user).toList.contains '\x00' = false := by
        rw [htail]
        simpa using hsayable
      refine ⟨by rw [htail]; rfl, ?_⟩
      rw [Homes.directory, if_neg hmore, hnul, if_neg Bool.false_ne_true, htail, List.tail_cons,
        String.ofList_toList, hknown]
  · rintro ⟨htilde, hfound⟩
    rw [Homes.directory] at hfound
    split at hfound
    · rename_i hown
      obtain rfl := Except.ok.inj hfound
      exact hown ▸ .own
    · rename_i hmore
      split at hfound
      · cases hfound
      · rename_i hnul
        cases hknown : homes.ofUser (String.ofList first.toList.tail) with
        | none =>
          rw [hknown] at hfound
          cases hfound
        | some found =>
          rw [hknown] at hfound
          obtain rfl := Except.ok.inj hfound
          have hfirst := eq_tilde_append htilde
          have hsayable : '\x00' ∉ (String.ofList first.toList.tail).toList := by
            rw [String.toList_ofList]
            exact fun hmem => hnul (List.contains_iff_mem.2 (List.mem_of_mem_tail hmem))
          refine hfirst ▸ .ofUser (fun hempty => hmore ?_) hsayable hknown
          rw [hfirst, hempty]
          rfl

/-- **Expanding a home goes by what is spelled.** -/
theorem expands_iff {text : String} {p : Path} :
    Expands homes text p ↔ (Path.parse text).expandHome homes = .ok p := by
  constructor
  · intro h
    cases h with
    | stays spelled plain =>
      rw [← Path.spells_iff.1 spelled]
      exact Path.expandHome_of_not_startsAtHome fun ⟨hroot, name, hname, htilde⟩ =>
        plain hroot name hname htilde
    | home spelled asked known base_spelled =>
      obtain ⟨htilde, hfound⟩ := asks_iff.1 asked
      rw [← Path.spells_iff.1 spelled, Path.spells_iff.1 base_spelled]
      exact Path.expandHome_cons htilde hfound known
  · intro h
    have hspelled := Path.spells_parse text
    rcases Path.expandHome_cases h with
      ⟨hplain, rfl⟩ | ⟨first, names, home, hread, htilde, hfound, hknown, rfl⟩
    · exact .stays hspelled fun hroot name hname htilde => hplain ⟨hroot, name, hname, htilde⟩
    · exact .home (hread ▸ hspelled) (asks_iff.2 ⟨htilde, hfound⟩) hknown (Path.spells_parse _)

/-- **A text that is no URI is taken for the path it leads to.** -/
theorem leadsTo_iff {s : Surroundings} {text : String} {p : Path} :
    LeadsTo s text p ↔ pathOf s text = .ok p := by
  constructor
  · intro h
    cases h with
    | absolute expanded rooted =>
      rw [pathOf, expands_iff.1 expanded]
      exact congrArg Except.ok (if_pos (Path.isAbsolute_iff.2 rooted))
    | below expanded base_spelled =>
      rw [pathOf, expands_iff.1 expanded, Path.spells_iff.1 base_spelled]
      rfl
  · intro h
    obtain ⟨q, hq, hunder⟩ := bind_eq_ok h
    obtain rfl : (Path.parse s.current).under q = p := Except.ok.inj hunder
    have hexpanded := expands_iff.2 hq
    rw [Path.under]
    split
    · rename_i habs
      exact .absolute hexpanded (Path.isAbsolute_iff.1 habs)
    · rename_i habs
      obtain ⟨root, names⟩ := q
      obtain rfl : root = .relative := by
        by_contra hroot
        exact habs (Path.isAbsolute_iff.2 hroot)
      exact .below hexpanded (Path.spells_parse _)

/-! ## What identities tell apart -/

/-- **No two paths have one identity.**  The text of a path is read back from its URI, and an absolute
path from its text. -/
theorem ofPath_injective {p q : Path} (hp : p.WellFormed) (hpabs : p.isAbsolute = true)
    (hq : q.WellFormed) (hqabs : q.isAbsolute = true) (h : ofPath p = ofPath q) : p = q := by
  have hchars := congrArg String.toList h
  rw [toList_ofPath, toList_ofPath] at hchars
  simp only [List.cons.injEq, true_and] at hchars
  have htext : p.toText.toList = q.toText.toList := by
    rw [← Uri.decode_encode p.toText.toList, hchars, Uri.decode_encode]
  rw [← Path.parse_of_isAbsolute hp hpabs, String.toList_inj.1 htext,
    Path.parse_of_isAbsolute hq hqabs]

/-- What stands in the URI of an absolute path is ASCII, and no authority stands before the path. -/
theorem isAscii_ofPath (p : Path) : ∀ c ∈ (ofPath p).toList, Uri.isAscii c = true := by
  intro c hc
  rw [toList_ofPath] at hc
  have hscheme : ['f', 'i', 'l', 'e', ':', '/', '/'].all Uri.isAscii = true := by decide
  rcases List.mem_append.1 (show c ∈ ['f', 'i', 'l', 'e', ':', '/', '/'] ++ _ from hc) with hc | hc
  · exact List.all_eq_true.1 hscheme c hc
  · exact Uri.isAscii_encode hc

theorem prefix_ofPath {p : Path} (habs : p.isAbsolute = true) :
    "file:///".toList <+: (ofPath p).toList := by
  obtain ⟨rest, hrest⟩ := Path.exists_slash_toText habs
  rw [toList_ofPath, hrest, Uri.encode_cons (by decide)]
  exact ⟨Uri.encode rest, rfl⟩

/-- **One identity per path, and one path per identity.**  From an absolute directory, each of two
texts that are no URIs and can be normalized leads to one path, which is absolute; and they have one
identity exactly if these paths have the same root and the same names.  The identity is ASCII, is a
URI, and starts as one without an authority. -/
theorem one_identity_per_path {s : Surroundings} {x y k l : String}
    (hcurrent : ['/'] <+: s.current.toList) (hx : Uri.isUri x = false) (hy : Uri.isUri y = false)
    (hk : normalize s x = .ok k) (hl : normalize s y = .ok l) :
    (∃ p q, (∀ p', LeadsTo s x p' ↔ p' = p) ∧ (∀ q', LeadsTo s y q' ↔ q' = q) ∧
      p.root ≠ .relative ∧ q.root ≠ .relative ∧
      (k = l ↔ p.root = q.root ∧ p.names = q.names)) ∧
    (∀ c ∈ k.toList, c.toNat < 0x80) ∧ "file:///".toList <+: k.toList ∧ Uri.isUri k = true := by
  obtain ⟨p, hp, rfl⟩ := exists_pathOf hx hk
  obtain ⟨q, hq, rfl⟩ := exists_pathOf hy hl
  have hbase := Path.isAbsolute_parse.2 hcurrent
  obtain ⟨hpwell, hpabs⟩ := wellFormed_of_pathOf hbase hp
  obtain ⟨hqwell, hqabs⟩ := wellFormed_of_pathOf hbase hq
  have honly : ∀ {text : String} {p : Path}, pathOf s text = .ok p →
      ∀ p', LeadsTo s text p' ↔ p' = p := by
    intro text p h p'
    rw [leadsTo_iff, h, Except.ok.injEq, eq_comm]
  refine ⟨⟨p, q, honly hp, honly hq, Path.isAbsolute_iff.1 hpabs, Path.isAbsolute_iff.1 hqabs, ?_⟩,
    fun c hc => of_decide_eq_true (isAscii_ofPath p c hc), prefix_ofPath hpabs, isUri_ofPath p⟩
  constructor
  · intro h
    obtain rfl := ofPath_injective hpwell hpabs hqwell hqabs h
    exact ⟨rfl, rfl⟩
  · rintro ⟨hroot, hnames⟩
    obtain ⟨root, names⟩ := p
    obtain rfl : root = q.root := hroot
    obtain rfl : names = q.names := hnames
    rfl

/-- A name in the home directory of a user, which is the current one, with a letter of two bytes and a
percent sign. -/
theorem one_identity_per_path_of_home :
    let s : Surroundings := ⟨"/work", "/home/user", fun name => if name = "ann" then some "/work/" else none⟩
    let k := "file:///work/a%20%C3%A9%25"
    ['/'] <+: s.current.toList ∧ Uri.isUri "~ann//a é%" = false ∧ Uri.isUri "./a é%/." = false ∧
    normalize s "~ann//a é%" = .ok k ∧ normalize s "./a é%/." = .ok k ∧
    (∃ p, (∀ p', LeadsTo s "~ann//a é%" p' ↔ p' = p) ∧ (∀ p', LeadsTo s "./a é%/." p' ↔ p' = p)) ∧
    (∀ c ∈ k.toList, c.toNat < 0x80) ∧ "file:///".toList <+: k.toList ∧ Uri.isUri k = true := by
  intro s k
  have hcurrent : ['/'] <+: "/work".toList := by decide
  have hx : Uri.isUri "~ann//a é%" = false := by cbv
  have hy : Uri.isUri "./a é%/." = false := by cbv
  have hof : ofPath ⟨.slash, ["work", "a é%"]⟩ = k := by cbv
  have hk : normalize s "~ann//a é%" = .ok k := by
    have hfound : s.homes.directory "~ann" = .ok "/work/" := by cbv
    have hhome : homeText "/work/" = "/work" := by decide
    have htilde : Path.parse "~ann//a é%" = ⟨.relative, ["~ann", "a é%"]⟩ := by cbv
    have hwork : Path.parse "/work" = ⟨.slash, ["work"]⟩ := by cbv
    have hp : pathOf s "~ann//a é%" = .ok ⟨.slash, ["work", "a é%"]⟩ := by
      rw [pathOf, htilde, Path.expandHome_cons (by decide) hfound (by rw [hhome]; decide), hhome, hwork]
      rfl
    rw [normalize_path rfl hx hp, hof]
  have hl : normalize s "./a é%/." = .ok k := by
    have hq : pathOf s "./a é%/." = .ok ⟨.slash, ["work", "a é%"]⟩ := by cbv
    rw [normalize_path rfl hy hq, hof]
  obtain ⟨⟨p, q, hp, hq, -, -, hsame⟩, hkey⟩ := one_identity_per_path hcurrent hx hy hk hl
  obtain ⟨hroot, hnames⟩ := hsame.1 rfl
  have hpq : q = p := by
    obtain ⟨root, names⟩ := q
    subst hroot hnames
    rfl
  subst hpq
  exact ⟨hcurrent, hx, hy, hk, hl, ⟨q, hp, hq⟩, hkey⟩

end Identity

end FileTags
