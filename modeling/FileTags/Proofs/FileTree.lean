import FileTags.FileTree
import Mathlib.Data.List.Infix
/-! # Following names

Names are followed one after another, and each but the last must be in a folder.  So they lead where
they lead if dots only take names away (`Path.placeOf`) just when all the places that they come by
before it are folders (`follow_eq_ok`); if they lead nowhere, the way ends at one of these places, which
is no folder (`FileTree.stop_of_follow`).
-/
namespace FileTags

/-! ## The places that a path comes by -/

namespace Path

variable {p : Path} {here names : List String}

/-- The place that a name leads to from another. -/
def onward (place : List String) (name : String) : List String :=
  if name = ".." then place.dropLast else place ++ [name]

/-- The place that names lead to from the root. -/
def placeOf (names : List String) : List String := names.foldl onward []

/-- The places that a path comes by, from the root to the place that it leads to. -/
def way (p : Path) : List (List String) := p.names.inits.map placeOf

theorem resolved_eq (p : Path) : p.resolved = placeOf p.names := rfl

theorem mem_way : here ∈ p.way ↔ ∃ names, names <+: p.names ∧ placeOf names = here := by
  rw [way, List.mem_map]
  simp only [List.mem_inits]

theorem resolved_mem_way (p : Path) : p.resolved ∈ p.way :=
  mem_way.2 ⟨p.names, List.prefix_refl _, rfl⟩

theorem mem_way_of_parent (h : here ∈ p.parent.way) : here ∈ p.way := by
  obtain ⟨names, hnames, rfl⟩ := mem_way.1 h
  exact mem_way.2 ⟨names, hnames.trans (List.dropLast_prefix _), rfl⟩

theorem placeOf_concat (names : List String) (name : String) :
    placeOf (names ++ [name]) = onward (placeOf names) name := by
  rw [placeOf, List.foldl_append]
  rfl

/-- A place on the way has no other names than the path. -/
theorem mem_of_mem_placeOf {name : String} (h : name ∈ placeOf names) : name ∈ names := by
  induction names using List.reverseRecOn with
  | nil => exact h
  | append_singleton names last ih =>
    rw [placeOf_concat, onward] at h
    split at h
    · exact List.mem_append_left _ (ih (List.mem_of_mem_dropLast h))
    · exact List.mem_append.2 ((List.mem_append.1 h).imp_left ih)

/-- Some names before the last are names before it, or none. -/
theorem prefix_of_ne_concat {above : List String} {name : String} (h : above <+: names ++ [name])
    (hne : above ≠ names ++ [name]) : above <+: names :=
  (List.prefix_concat_iff.1 h).resolve_left hne

theorem prefix_dropLast {above : List String} (h : above <+: names) (hne : above ≠ names) :
    above <+: names.dropLast := by
  rcases List.eq_nil_or_concat names with rfl | ⟨before, last, rfl⟩
  · exact h
  · rw [List.concat_eq_append] at h hne ⊢
    rw [List.dropLast_concat]
    exact prefix_of_ne_concat h hne

theorem ne_concat_of_prefix {above : List String} (h : above <+: names) (name : String) :
    above ≠ names ++ [name] := by
  rintro rfl
  exact absurd h.length_le (by simp)

/-- The way of a path goes on from the way of its parent. -/
theorem mem_way_iff : here ∈ p.way ↔ here ∈ p.parent.way ∨ here = p.resolved := by
  constructor
  · intro h
    obtain ⟨above, habove, rfl⟩ := mem_way.1 h
    by_cases hwhole : above = p.names
    · exact .inr (by rw [hwhole]; rfl)
    · exact .inl (mem_way.2 ⟨above, prefix_dropLast habove hwhole, rfl⟩)
  · rintro (h | rfl)
    · exact mem_way_of_parent h
    · exact resolved_mem_way p

/-- **Two paths are apart**: neither comes by the place that the other leads to. -/
def Apart (p q : Path) : Prop := p.resolved ∉ q.way ∧ q.resolved ∉ p.way

instance (p q : Path) : Decidable (p.Apart q) :=
  inferInstanceAs (Decidable (p.resolved ∉ q.way ∧ q.resolved ∉ p.way))

theorem Apart.resolved_ne {q : Path} (h : p.Apart q) : p.resolved ≠ q.resolved :=
  fun heq => h.1 (heq ▸ q.resolved_mem_way)

end Path

namespace FileTree

open FileTags.Path (placeOf onward)

variable {t : FileTree} {place names : List String}

theorem isFolder_of_mem (h : place ∈ t.folders) : t.isFolder place = true := by
  rw [isFolder, Bool.or_eq_true, List.any_eq_true]
  exact .inr ⟨place, h, List.isPrefixOf_iff_prefix.2 (List.prefix_refl place)⟩

/-- Above a folder there are only folders. -/
theorem isFolder_of_above {above : List String} (h : above <+: place)
    (hplace : t.isFolder place = true) : t.isFolder above = true := by
  rw [isFolder, Bool.or_eq_true, List.any_eq_true] at hplace ⊢
  rcases hplace with hempty | ⟨folder, hmem, hfolder⟩
  · rw [List.isEmpty_iff.1 hempty] at h
    exact .inl (List.isEmpty_iff.2 (List.prefix_nil.1 h))
  · exact .inr ⟨folder, hmem, List.isPrefixOf_iff_prefix.2
      (h.trans (List.isPrefixOf_iff_prefix.1 hfolder))⟩

/-- More names are followed from where the first ones lead. -/
theorem follow_append (xs ys : List String) :
    t.follow place (xs ++ ys) = t.follow place xs >>= fun here => t.follow here ys := by
  induction xs generalizing place with
  | nil => rfl
  | cons x xs ih =>
    rw [List.cons_append, follow, follow]
    split
    · split
      · exact ih
      · exact ih
    · rfl

theorem follow_singleton (here : List String) (name : String) :
    t.follow here [name] = if t.isFolder here then .ok (onward here name) else .error here := by
  rw [follow, onward]
  split
  · split <;> rfl
  · rfl

/-- **Names lead to their place** if all that they come by before it are folders, and only then. -/
theorem follow_eq_ok :
    t.follow [] names = .ok place ↔ placeOf names = place ∧
      ∀ above, above <+: names → above ≠ names → t.isFolder (placeOf above) = true := by
  induction names using List.reverseRecOn generalizing place with
  | nil =>
    refine ⟨fun h => ⟨Except.ok.inj h, fun above habove hne => ?_⟩, fun h => congrArg Except.ok h.1⟩
    exact absurd (List.prefix_nil.1 habove) hne
  | append_singleton names name ih =>
    rw [follow_append]
    constructor
    · intro h
      cases hnames : t.follow [] names with
      | error stop =>
        rw [hnames] at h
        cases h
      | ok here =>
        obtain ⟨rfl, hfolders⟩ := ih.1 hnames
        rw [hnames] at h
        change t.follow (placeOf names) [name] = .ok place at h
        rw [follow_singleton] at h
        split at h
        · rename_i hfolder
          refine ⟨(Path.placeOf_concat names name).trans (Except.ok.inj h), ?_⟩
          intro above habove hne
          by_cases hwhole : above = names
          · rwa [hwhole]
          · exact hfolders above (Path.prefix_of_ne_concat habove hne) hwhole
        · cases h
    · rintro ⟨rfl, hfolders⟩
      have hlast : t.isFolder (placeOf names) = true :=
        hfolders names (List.prefix_append _ _) (Path.ne_concat_of_prefix (List.prefix_refl _) name)
      have hnames : t.follow [] names = .ok (placeOf names) :=
        ih.2 ⟨rfl, fun above habove _ => hfolders above (habove.trans (List.prefix_append _ _))
          (Path.ne_concat_of_prefix habove name)⟩
      rw [hnames]
      show t.follow (placeOf names) [name] = _
      rw [follow_singleton, if_pos hlast, Path.placeOf_concat]

/-- **A path leads to its place** from the root if all that it comes by before it are folders, and only
then. -/
theorem follow_names_eq_ok {p : Path} :
    t.follow [] p.names = .ok place ↔
      p.resolved = place ∧ ∀ here ∈ p.parent.way, t.isFolder here = true := by
  rw [follow_eq_ok, Path.resolved_eq]
  refine and_congr_right fun _ => ⟨fun h here hhere => ?_, fun h above habove hne => ?_⟩
  · obtain ⟨above, habove, rfl⟩ := Path.mem_way.1 hhere
    by_cases hwhole : above = p.names
    · -- Only a path without names is its own folder, and that is the root.
      rcases List.eq_nil_or_concat p.names with hnil | ⟨before, last, hnames⟩
      · rw [hwhole, hnil]
        rfl
      · rw [Path.parent, hnames, List.concat_eq_append, List.dropLast_concat] at habove
        rw [hnames, List.concat_eq_append] at hwhole
        exact absurd hwhole (Path.ne_concat_of_prefix habove last)
    · exact h above (habove.trans (List.dropLast_prefix _)) hwhole
  · exact h _ (Path.mem_way.2 ⟨above, Path.prefix_dropLast habove hne, rfl⟩)

/-- A way that ends too early ends at a place that is no folder. -/
theorem stop_of_follow {stop : List String} (h : t.follow [] names = .error stop) :
    (∃ above, above <+: names ∧ placeOf above = stop) ∧ t.isFolder stop = false := by
  induction names using List.reverseRecOn with
  | nil => cases h
  | append_singleton names name ih =>
    rw [follow_append] at h
    cases hnames : t.follow [] names with
    | error stop' =>
      rw [hnames] at h
      obtain rfl := Except.error.inj h
      obtain ⟨⟨above, habove, hstop⟩, hnot⟩ := ih hnames
      exact ⟨⟨above, habove.trans (List.prefix_append _ _), hstop⟩, hnot⟩
    | ok here =>
      obtain ⟨rfl, -⟩ := follow_eq_ok.1 hnames
      rw [hnames] at h
      change t.follow (placeOf names) [name] = .error stop at h
      rw [follow_singleton] at h
      split at h
      · cases h
      · rename_i hnot
        obtain rfl := Except.error.inj h
        exact ⟨⟨names, List.prefix_append _ _, rfl⟩, Bool.eq_false_iff.2 hnot⟩

/-- Wherever following names ends, the place has no other names than those and the ones it started
with. -/
theorem mem_of_follow {stop : List String} {name : String}
    (h : t.follow place names = .ok stop ∨ t.follow place names = .error stop)
    (hname : name ∈ stop) : name ∈ place ++ names := by
  induction names generalizing place with
  | nil =>
    obtain rfl : place = stop := h.elim Except.ok.inj nofun
    exact List.mem_append_left _ hname
  | cons first names ih =>
    rw [follow] at h
    split at h
    · split at h
      · refine (List.mem_append.1 (ih h)).elim (fun hmem => ?_) fun hmem => ?_
        · exact List.mem_append_left _ (List.mem_of_mem_dropLast hmem)
        · exact List.mem_append_right _ (List.mem_cons_of_mem first hmem)
      · rw [List.append_cons]
        exact ih h
    · obtain rfl : place = stop := h.elim nofun Except.error.inj
      exact List.mem_append_left _ hname

/-- The place that names lead to is in a folder, unless it is one itself. -/
theorem isFolder_above_of_follow (h : t.follow [] names = .ok place)
    (hnot : t.isFolder place = false) {above : List String} (habove : above <+: place)
    (hne : above ≠ place) : t.isFolder above = true := by
  obtain ⟨rfl, hfolders⟩ := follow_eq_ok.1 h
  induction names using List.reverseRecOn with
  | nil => exact absurd (List.prefix_nil.1 habove) hne
  | append_singleton names name _ =>
    have hlast : t.isFolder (placeOf names) = true :=
      hfolders names (List.prefix_append _ _) (Path.ne_concat_of_prefix (List.prefix_refl _) name)
    rw [Path.placeOf_concat, onward] at habove hne hnot
    split at hnot
    · -- Two dots lead to a place above a folder, which is a folder.
      rw [isFolder_of_above (List.dropLast_prefix _) hlast] at hnot
      cases hnot
    · rename_i hup
      rw [if_neg hup] at habove hne
      exact isFolder_of_above (Path.prefix_of_ne_concat habove hne) hlast

end FileTree

end FileTags
