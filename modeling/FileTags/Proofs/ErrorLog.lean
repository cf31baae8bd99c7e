import FileTags.Config
import FileTags.ErrorLog
import FileTags.Proofs.Spelling
/-! # Where the error log lies

The folder of the store and that of the error log are both looked up in the environment, but only for
the store is a tilde in front expanded.  So the log lies in the folder of the store unless the
environment names a folder below a home directory (`in_store_folder`).  Such a name is taken for the log
as it stands, and leads elsewhere: the name in front stands for itself only if that is what the home
directory is called (`Path.expandHome_eq_self_iff`).
-/
namespace FileTags

namespace Path

variable {p q : Path} {homes : Homes}

/-- **A first name with a tilde stands for itself** only if that is what the home directory is called. -/
theorem expandHome_eq_self_iff {first home : String} {names : List String}
    (htilde : first.toList.head? = some '~') (hfound : homes.directory first = .ok home)
    (h : expandHome homes ⟨.relative, first :: names⟩ = .ok q) :
    q = ⟨.relative, first :: names⟩ ↔ parse (homeText home) = ⟨.relative, [first]⟩ := by
  rcases expandHome_cases h with ⟨hplain, -⟩ | ⟨first', names', home', hsame, -, hfound', -, rfl⟩
  · exact absurd ⟨rfl, first, rfl, htilde⟩ hplain
  · obtain ⟨rfl, rfl⟩ := List.cons.inj (congrArg Path.names hsame)
    obtain rfl := Except.ok.inj (hfound.symm.trans hfound')
    generalize parse (homeText home) = base
    obtain ⟨root, homeNames⟩ := base
    rw [mk.injEq, mk.injEq, ← List.singleton_append, List.append_cancel_right_eq]

theorem child_inj {name : String} (h : parse name = ⟨.relative, [name]⟩) :
    p.child name = q.child name ↔ p = q := by
  obtain ⟨root, names⟩ := p
  obtain ⟨root', names'⟩ := q
  rw [child_of_name _ h, child_of_name _ h, mk.injEq, mk.injEq, List.append_cancel_right_eq]

end Path

namespace ErrorLog

variable {named : Option String} {homes : Homes} {d folder : Path}

/-- **The environment names a folder below a home directory**, which is not itself called as the name that
stands for it. -/
structure NamesBelowHome (named : Option String) (homes : Homes) (folder : Path) : Prop where
  named : ∃ text, named = some text ∧ Path.parse text = folder
  startsAtHome : folder.StartsAtHome
  elsewhere : ∀ first ∈ folder.names.head?, ∀ home, homes.directory first = .ok home →
    Path.parse (Path.homeText home) ≠ ⟨.relative, [first]⟩

/-- The folder below the home directory is found in the same way for both. -/
theorem path_atHome (h : defaultFolder.atHome homes = .ok d) :
    path.atHome homes = .ok (d.child fileName) := by
  rw [defaultFolder.atHome] at h
  rw [path.atHome]
  cases hexpand : (Path.parse "~").expandHome homes with
  | error f =>
    rw [hexpand] at h
    cases h
  | ok base =>
    rw [hexpand] at h
    obtain rfl := Except.ok.inj h
    rfl

/-- A folder that is named is taken for the log as it stands. -/
theorem path_named {text : String} (h : text.isEmpty = false) :
    path (some text) homes = .ok ((Path.parse text).child fileName) := by
  rw [path, h, if_neg Bool.false_ne_true]

theorem NamesBelowHome.exists_text (h : NamesBelowHome named homes folder) :
    ∃ text, named = some text ∧ Path.parse text = folder ∧ text.isEmpty = false := by
  obtain ⟨text, rfl, rfl⟩ := h.named
  refine ⟨text, rfl, rfl, Bool.eq_false_iff.2 fun hempty => ?_⟩
  -- The path of the empty text has no name that a tilde could start.
  obtain ⟨-, name, hname, -⟩ := h.startsAtHome
  rw [String.isEmpty_iff.1 hempty] at hname
  cases hname

/-- **The error log lies in the folder of the store**, unless the environment names a folder below a home
directory; then it lies in the folder that is spelled so, which is another one. -/
theorem in_store_folder (h : defaultFolder named homes = .ok d) :
    ((∀ folder, ¬ NamesBelowHome named homes folder) → path named homes = .ok (d.child fileName)) ∧
    ∀ folder, NamesBelowHome named homes folder →
      path named homes = .ok (folder.child fileName) ∧ folder.child fileName ≠ d.child fileName := by
  constructor
  · intro hnot
    cases named with
    | none => exact path_atHome h
    | some text =>
      rw [defaultFolder] at h
      split at h
      · rename_i hempty
        rw [path, if_pos hempty]
        exact path_atHome h
      · rename_i hsome
        have hfolder : Path.parse text = d := by
          rcases Path.expandHome_cases h with
            ⟨-, rfl⟩ | ⟨first, names, home, hread, htilde, hfound, -, -⟩
          · rfl
          · -- Then the home directory is itself called as the name, and expanding it changes nothing.
            rw [hread] at h ⊢
            refine ((Path.expandHome_eq_self_iff htilde hfound h).2 ?_).symm
            by_contra helse
            refine hnot ⟨.relative, first :: names⟩
              ⟨⟨text, rfl, hread⟩, ⟨rfl, first, rfl, htilde⟩, fun name hname home' hfound' => ?_⟩
            obtain rfl := Option.some.inj hname
            obtain rfl := Except.ok.inj (hfound.symm.trans hfound')
            exact helse
        rw [path_named (Bool.eq_false_iff.2 hsome), hfolder]
  · intro folder hbelow
    obtain ⟨text, rfl, rfl, hsome⟩ := hbelow.exists_text
    rw [defaultFolder, hsome, if_neg Bool.false_ne_true] at h
    refine ⟨path_named hsome, fun heq => ?_⟩
    have hsame : d = Path.parse text := ((Path.child_inj (by decide)).1 heq).symm
    rcases Path.expandHome_cases h with ⟨hplain, -⟩ | ⟨first, names, home, hread, htilde, hfound, -, -⟩
    · exact hplain hbelow.startsAtHome
    · have helse := hbelow.elsewhere first (by rw [hread]; rfl) home hfound
      rw [hread] at h hsame
      exact helse ((Path.expandHome_eq_self_iff htilde hfound h).1 hsame)

/-- The folder is named by an absolute path, and the home directory by a name that is none. -/
theorem in_store_folder_of_absolute :
    defaultFolder (some "/var//tags/.") { own := "~" } = .ok ⟨.slash, ["var", "tags"]⟩ ∧
    path (some "/var//tags/.") { own := "~" } = .ok (Path.child ⟨.slash, ["var", "tags"]⟩ fileName) := by
  have hfolder : defaultFolder (some "/var//tags/.") { own := "~" } = .ok ⟨.slash, ["var", "tags"]⟩ := by cbv
  refine ⟨hfolder, (in_store_folder hfolder).1 fun folder hbelow => ?_⟩
  obtain ⟨text, htext, rfl⟩ := hbelow.named
  obtain rfl := Option.some.inj htext
  exact absurd hbelow.startsAtHome.1 (by decide)

/-- **A tilde is expanded for the store only**: the error log lies in another folder. -/
theorem not_in_store_folder_of_tilde :
    defaultFolder (some "~/tags") { own := "/home/user" } = .ok ⟨.slash, ["home", "user", "tags"]⟩ ∧
    path (some "~/tags") { own := "/home/user" } = .ok ⟨.relative, ["~", "tags", fileName]⟩ ∧
    path (some "~/tags") { own := "/home/user" } ≠
      .ok (Path.child ⟨.slash, ["home", "user", "tags"]⟩ fileName) := by
  have hparse : Path.parse "~/tags" = ⟨.relative, ["~", "tags"]⟩ := by decide
  have hhome : Path.homeText "/home/user" = "/home/user" := by decide
  have hbase : Path.parse "/home/user" = ⟨.slash, ["home", "user"]⟩ := by decide
  have hfolder : defaultFolder (some "~/tags") { own := "/home/user" } =
      .ok ⟨.slash, ["home", "user", "tags"]⟩ := by
    show (Path.parse "~/tags").expandHome { own := "/home/user" } = _
    rw [hparse, Path.expandHome_cons (by decide) (if_pos rfl) (by rw [hhome]; decide), hhome, hbase]
    rfl
  have hpath : path (some "~/tags") { own := "/home/user" } = .ok ⟨.relative, ["~", "tags", fileName]⟩ := by
    rw [path_named (by decide), hparse, Path.child_of_name _ (by decide)]
    rfl
  refine ⟨hfolder, hpath, fun heq => ?_⟩
  rw [hpath] at heq
  exact absurd (Except.ok.inj heq) (by decide)

end ErrorLog

end FileTags
