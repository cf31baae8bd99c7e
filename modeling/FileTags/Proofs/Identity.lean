import FileTags.Proofs.Path
import FileTags.Proofs.Uri
import Mathlib
/-! # Identities of identities

Normalizing an identity again gives it back, unless it is too long (`normalize_normalized`).  A URI
is kept as it is, so it has been checked; but the file URI of a path is longer than the path, and
nobody has checked its length.  Everything else is as it has to be: a file URI is a URI, and what
stands in it is letters, digits and a few marks, so no control character.

For a path of one name, which is a word of letters, the identity is written out
(`normalize_letters`): seven characters more than the path.
-/
namespace FileTags

namespace Identity

theorem toList_ofPath (p : Path) :
    (ofPath p).toList = 'f' :: 'i' :: 'l' :: 'e' :: ':' :: '/' :: '/' ::
      Uri.encode p.toText.toList := by
  -- A text in quotes is a list of characters to the first rewrite, the path to the second.
  rw [ofPath, String.toList_append, String.toList_ofList, String.toList_ofList]
  rfl

theorem length_ofPath (p : Path) :
    (ofPath p).length = 7 + Uri.encodedLength p.toText.toList := by
  rw [← String.length_toList, toList_ofPath, ← Uri.length_encode]
  simp only [List.length_cons]
  omega

theorem scheme?_ofPath (p : Path) :
    Uri.scheme? (ofPath p).toList =
      some (['f', 'i', 'l', 'e'], '/' :: '/' :: Uri.encode p.toText.toList) := by
  rw [toList_ofPath]
  rfl

theorem isUri_ofPath (p : Path) : Uri.isUri (ofPath p) = true := by
  simp [Uri.isUri, scheme?_ofPath]

/-- All that can be wrong with the URI of a path is its length. -/
theorem check_ofPath (p : Path) :
    check (ofPath p) = if maxLength < (ofPath p).length then .error .idLength else .ok () := by
  have hne : (ofPath p).isEmpty = false := by
    rw [← Bool.not_eq_true, String.isEmpty_iff, ← String.toList_eq_nil_iff, toList_ofPath]
    exact List.cons_ne_nil _ _
  have hcontrol : ¬ (ofPath p).toList.any isControl = true := by
    rw [toList_ofPath, List.any_eq_true]
    rintro ⟨c, hc, hcontrol⟩
    have hnone : ['f', 'i', 'l', 'e', ':', '/', '/'].any isControl = false := by decide
    rcases List.mem_append.1 (show c ∈ ['f', 'i', 'l', 'e', ':', '/', '/'] ++
      Uri.encode p.toText.toList from hc) with hc | hc
    · exact List.any_eq_false.1 hnone c hc hcontrol
    · exact Bool.false_ne_true ((Uri.isControl_encode hc).symm.trans hcontrol)
  rw [check, hne, if_neg hcontrol, Bool.false_or]
  simp only [decide_eq_true_eq]

/-- An answer of a whole comes from an answer of its first part. -/
theorem bind_eq_ok {α β : Type} {x : Except Failure α} {f : α → Except Failure β} {b : β}
    (h : (x >>= f) = .ok b) : ∃ a, x = .ok a ∧ f a = .ok b := by
  cases x with
  | error e => cases h
  | ok a => exact ⟨a, rfl, h⟩

/-- What a text is normalized to is itself, checked, or the URI of a path. -/
theorem normalize_eq_ok {s : Surroundings} {id identity : String}
    (h : normalize s id = .ok identity) :
    (identity = id ∧ check id = .ok () ∧ Uri.isUri id = true) ∨ ∃ p, identity = ofPath p := by
  rw [normalize] at h
  obtain ⟨u, hc, h⟩ := bind_eq_ok h
  by_cases hu : Uri.isUri id = true
  · rw [if_pos hu] at h
    exact .inl ⟨(Except.ok.inj h).symm, hc, hu⟩
  · rw [if_neg hu] at h
    obtain ⟨p, -, h⟩ := bind_eq_ok h
    exact .inr ⟨p, (Except.ok.inj h).symm⟩

/-- A text that is no URI is normalized to the URI of its path. -/
theorem exists_pathOf {s : Surroundings} {id identity : String} (hpath : Uri.isUri id = false)
    (h : normalize s id = .ok identity) : ∃ p, pathOf s id = .ok p ∧ identity = ofPath p := by
  rw [normalize] at h
  obtain ⟨u, -, h⟩ := bind_eq_ok h
  rw [hpath, if_neg Bool.false_ne_true] at h
  obtain ⟨p, hp, h⟩ := bind_eq_ok h
  exact ⟨p, hp, (Except.ok.inj h).symm⟩

/-- The path of a text has names that say where to go, and is absolute if the current directory is. -/
theorem wellFormed_of_pathOf {s : Surroundings} {id : String} {p : Path}
    (hcurrent : (Path.parse s.current).isAbsolute = true) (h : pathOf s id = .ok p) :
    p.WellFormed ∧ p.isAbsolute = true := by
  obtain ⟨q, hq, hunder⟩ := bind_eq_ok h
  obtain rfl : (Path.parse s.current).under q = p := Except.ok.inj hunder
  refine ⟨(Path.wellFormed_parse _).under ((Path.wellFormed_parse id).expandHome hq), ?_⟩
  rw [Path.under]
  split
  · assumption
  · exact hcurrent

/-- A path is checked and becomes a URI. -/
theorem normalize_path {s : Surroundings} {id : String} {p : Path} (hc : check id = .ok ())
    (hpath : Uri.isUri id = false) (hp : pathOf s id = .ok p) : normalize s id = .ok (ofPath p) := by
  rw [normalize, hc]
  show (if Uri.isUri id = true then _ else _) = _
  rw [hpath, if_neg Bool.false_ne_true, hp]
  rfl

/-- A URI is checked and kept. -/
theorem normalize_uri {s : Surroundings} {id : String} (hu : Uri.isUri id = true) :
    normalize s id = check id >>= fun _ => .ok id := by
  rw [normalize]
  simp only [hu, if_true]
  rfl

/-- **An identity is normalized to itself**, from wherever, unless it is too long. -/
theorem normalize_normalized {s : Surroundings} {id identity : String}
    (h : normalize s id = .ok identity) (s' : Surroundings) :
    normalize s' identity =
      if maxLength < identity.length then .error .idLength else .ok identity := by
  rcases normalize_eq_ok h with ⟨rfl, hc, hu⟩ | ⟨p, rfl⟩
  · have hlength : ¬ maxLength < identity.length := by
      intro hlong
      rw [check, decide_eq_true hlong, Bool.or_true, if_pos rfl] at hc
      cases hc
    rw [normalize_uri hu, hc, if_neg hlength]
    rfl
  · rw [normalize_uri (isUri_ofPath p), check_ofPath]
    split
    · rfl
    · rfl

/-! ## The path of a word -/

theorem check_letters {cs : List Char} (h : ∀ c ∈ cs, Uri.isLetter c = true)
    (hlength : cs.length < maxLength) : check (String.ofList ('/' :: cs)) = .ok () := by
  have hne : (String.ofList ('/' :: cs)).isEmpty = false := by
    rw [← Bool.not_eq_true, String.isEmpty_iff, ← String.toList_eq_nil_iff, String.toList_ofList]
    exact List.cons_ne_nil _ _
  have hshort : ¬ maxLength < (String.ofList ('/' :: cs)).length := by
    rw [String.length_ofList, List.length_cons]
    omega
  have hcontrol : ¬ (String.ofList ('/' :: cs)).toList.any isControl = true := by
    rw [String.toList_ofList, List.any_eq_true]
    rintro ⟨c, hc, hcontrol⟩
    simp only [isControl, Bool.or_eq_true, decide_eq_true_eq] at hcontrol
    rcases List.mem_cons.1 hc with rfl | hc
    · revert hcontrol
      decide
    · have hbounds := Uri.isLetter_bounds (h c hc)
      omega
  rw [check, hne, decide_eq_false hshort, if_neg hcontrol]
  rfl

theorem isUri_slash (cs : List Char) : Uri.isUri (String.ofList ('/' :: cs)) = false := by
  have hscheme : Uri.scheme? ('/' :: cs) = none := by
    rw [Uri.scheme?]
    split
    · rfl
    · rfl
  rw [Uri.isUri, String.toList_ofList, hscheme]

theorem parse_letters {cs : List Char} (h : ∀ c ∈ cs, Uri.isLetter c = true) (hne : cs ≠ []) :
    Path.parse (String.ofList ('/' :: cs)) = ⟨.slash, [String.ofList cs]⟩ := by
  have hno : ∀ c, Uri.isLetter c = false → c ∉ cs := fun c hc hmem =>
    Bool.false_ne_true (hc.symm.trans (h c hmem))
  obtain ⟨c, rest, rfl⟩ := List.exists_cons_of_ne_nil hne
  have hslash : '/' ∉ c :: rest := hno '/' (by decide)
  have hroot : Path.rootOf ('/' :: c :: rest) = .slash := by
    have hc : c ≠ '/' := fun hc => hslash (by rw [hc]; exact List.mem_cons_self)
    rw [Path.rootOf]
    · intro more heq
      exact hc (List.cons.inj heq).1
    · intro more heq
      exact hc (List.cons.inj heq).1
  have hname : Path.isName (c :: rest) = true := by
    have hdot : c :: rest ≠ ['.'] := fun heq =>
      hno '.' (by decide) (by rw [heq]; exact List.mem_singleton_self _)
    rw [Path.isName, Bool.and_eq_true]
    exact ⟨rfl, bne_iff_ne.2 hdot⟩
  rw [Path.parse, String.toList_ofList, hroot, Text.pieces, if_pos rfl,
    Text.pieces_of_notMem hslash, List.filter_cons_of_neg (by decide), List.filter_cons_of_pos hname]
  rfl

/-- The identity of a path of one name, if the name is a word. -/
theorem normalize_letters {s : Surroundings} {cs : List Char}
    (h : ∀ c ∈ cs, Uri.isLetter c = true) (hne : cs ≠ []) (hlength : cs.length < maxLength) :
    normalize s (String.ofList ('/' :: cs)) =
      .ok ("file://" ++ String.ofList ('/' :: cs)) := by
  have hpath : pathOf s (String.ofList ('/' :: cs)) = .ok ⟨.slash, [String.ofList cs]⟩ := by
    rw [pathOf, parse_letters h hne]
    rfl
  have htext : Path.toText ⟨.slash, [String.ofList cs]⟩ = String.ofList ('/' :: cs) := by
    rw [← String.toList_inj, Path.toText, if_neg fun hroot => Path.Root.noConfusion hroot.1]
    have hintercalate : String.intercalate "/" [String.ofList cs] = String.ofList cs := rfl
    have hslash : Path.Root.slash.text.toList = ['/'] := by decide
    rw [String.toList_append, hintercalate, String.toList_ofList, String.toList_ofList, hslash]
    rfl
  have hletters : Uri.encode ('/' :: cs) = '/' :: cs := by
    refine Uri.encode_plain (List.forall_mem_cons.2 ⟨by decide, ?_⟩)
    exact fun c hc => Uri.isPlain_of_isLetter (h c hc)
  rw [normalize_path (check_letters h hlength) (isUri_slash cs) hpath, ofPath, htext,
    String.toList_ofList, hletters]

/-! ## Normalizing twice -/

/-- **Normalizing twice is normalizing once, unless the identity is too long.**  That can only be the
URI of a path: it has seven characters besides the path, in which each byte that does not stand for
itself takes three. -/
theorem normalize_again {s : Surroundings} {id identity : String}
    (h : normalize s id = .ok identity) (s' : Surroundings) :
    (normalize s' identity = .ok identity ↔ identity.length ≤ maxLength) ∧
    (maxLength < identity.length →
      normalize s' identity = .error .idLength ∧ Uri.isUri id = false) ∧
    (Uri.isUri id = false → ∃ p, pathOf s id = .ok p ∧
      identity.length = 7 + Uri.encodedLength p.toText.toList) := by
  have htwice := normalize_normalized h s'
  refine ⟨?_, ?_, ?_⟩
  · rw [htwice]
    constructor
    · refine fun hkept => Nat.le_of_not_lt fun hlong => ?_
      rw [if_pos hlong] at hkept
      cases hkept
    · intro hshort
      rw [if_neg (Nat.not_lt_of_le hshort)]
  · intro hlong
    rw [htwice, if_pos hlong]
    refine ⟨rfl, Bool.eq_false_iff.2 fun hu => ?_⟩
    -- A URI is kept as it is, so its length has been checked.
    rw [normalize_uri hu] at h
    obtain ⟨_, hc, hid⟩ := bind_eq_ok h
    obtain rfl : id = identity := Except.ok.inj hid
    rw [check, decide_eq_true hlong, Bool.or_true, if_pos rfl] at hc
    cases hc
  · intro hpath
    obtain ⟨p, hp, rfl⟩ := exists_pathOf hpath h
    exact ⟨p, hp, length_ofPath p⟩

/-- A path whose name is not of letters alone, and in which a letter takes two bytes. -/
theorem normalize_again_of_umlaut :
    let identity := "file:///work/a%20%C3%BC"
    normalize ⟨"/work", { own := "/home/user" }⟩ "a ü" = .ok identity ∧
    (normalize ⟨"/", { own := "/root" }⟩ identity = .ok identity ↔ identity.length ≤ maxLength) ∧
    (maxLength < identity.length →
      normalize ⟨"/", { own := "/root" }⟩ identity = .error .idLength ∧ Uri.isUri "a ü" = false) ∧
    (Uri.isUri "a ü" = false → ∃ p, pathOf ⟨"/work", { own := "/home/user" }⟩ "a ü" = .ok p ∧
      identity.length = 7 + Uri.encodedLength p.toText.toList) := by
  have h : normalize ⟨"/work", { own := "/home/user" }⟩ "a ü" = .ok "file:///work/a%20%C3%BC" := by cbv
  exact ⟨h, normalize_again h ⟨"/", { own := "/root" }⟩⟩

/-- The identity of a path of 4091 characters is refused when it is normalized again. -/
theorem normalize_refuses_its_own :
    let s : Surroundings := ⟨"/work", { own := "/home/user" }⟩
    let path := '/' :: List.replicate 4090 'a'
    let identity := "file://" ++ String.ofList path
    normalize s (String.ofList path) = .ok identity ∧
      normalize s identity = .error .idLength := by
  intro s path identity
  have hletters : ∀ c ∈ List.replicate 4090 'a', Uri.isLetter c = true := by
    intro c hc
    rw [List.eq_of_mem_replicate hc]
    rfl
  have hne : List.replicate 4090 'a' ≠ [] := List.cons_ne_nil _ _
  have hshort : (List.replicate 4090 'a').length < maxLength := by
    rw [List.length_replicate]
    decide
  have hidentity : normalize s (String.ofList path) = .ok identity :=
    normalize_letters hletters hne hshort
  have hlong : maxLength < identity.length := by
    have hscheme : "file://".length = 7 := by decide
    rw [String.length_append, hscheme, String.length_ofList, List.length_cons,
      List.length_replicate]
    decide
  refine ⟨hidentity, ?_⟩
  rw [normalize_normalized hidentity, if_pos hlong]

end Identity

end FileTags
