import FileTags.Proofs.Toml.Text
import Mathlib.Data.List.Forall2
/-! # Sections of a configuration

Tables are written as sections: a header, and a line for each plain value.  A line is read back as what
it says, whatever lines follow it: a header opens its table (`statement_of_header`), and a key is given
the value behind it (`statement_of_key`).
-/
namespace FileTags.Toml

variable {entries : List (String × Value)} {name : String}

/-! ## Writing sections -/

theorem innerSections_of_plain (h : ∀ e ∈ entries, hasSections e.2 = false) (outer : String) :
    innerSections outer entries = [] := by
  induction entries with
  | nil => rfl
  | cons e entries ih =>
    obtain ⟨he, hrest⟩ := List.forall_mem_cons.1 h
    obtain ⟨k, v⟩ := e
    rw [innerSections.eq_def]
    dsimp only
    rw [he, if_neg Bool.false_ne_true, List.nil_append, ih hrest]

/-- **A table of plain values is written as a header and a line for each of them.** -/
theorem sections_of_plain (h : ∀ e ∈ entries, hasSections e.2 = false) (hname : name ≠ "") :
    sections name false (.table entries) =
      .ok ("[" ++ name ++ "]\n") :: entries.map fun e => line e.1 e.2 := by
  have hplain : plainLines entries = entries.map fun e => line e.1 e.2 := by
    rw [plainLines, List.filter_eq_self.2 fun e he => by rw [h e he]; rfl]
  have hheader : header name false entries = [.ok ("[" ++ name ++ "]\n")] := by
    have hnone : (entries.any fun e => hasSections e.2) = false :=
      List.any_eq_false.2 fun e he => by rw [h e he]; exact Bool.false_ne_true
    have hne : ¬ (name.isEmpty || ((plainLines entries).isEmpty && entries.any fun e => hasSections e.2)) =
        true := by
      simp [hname, hnone]
    rw [header, if_neg Bool.false_ne_true, if_neg hne]
  rw [sections, hheader, hplain, innerSections_of_plain h]
  exact List.append_nil _

/-- **Tables are written as their sections, with blank lines between them.** -/
theorem sections_of_tables (h : ∀ e ∈ entries, isTable e.2 = true) :
    sections "" false (.table entries) =
      [.ok "\n"].intercalate (entries.map fun e => sections (writeName e.1) false e.2) := by
  have hsections : ∀ e ∈ entries, hasSections e.2 = true := by
    rintro ⟨k, v⟩ he
    cases v with
    | table es => rfl
    | _ => exact absurd (h _ he) Bool.false_ne_true
  have hplain : plainLines entries = [] := by
    rw [plainLines, List.filter_eq_nil_iff.2 fun e he => by rw [hsections e he]; exact Bool.false_ne_true]
    rfl
  have hheader : header "" false entries = [] := rfl
  have hinner : innerSections "" entries = entries.map fun e => sections (writeName e.1) false e.2 := by
    clear hsections hplain hheader
    induction entries with
    | nil => rfl
    | cons e entries ih =>
      obtain ⟨he, hrest⟩ := List.forall_mem_cons.1 h
      obtain ⟨k, v⟩ := e
      cases v with
      | table es => exact congrArg (_ :: ·) (ih hrest)
      | _ => exact absurd he Bool.false_ne_true
  rw [sections, hheader, hplain, hinner]
  rfl

/-! ## Reading lines -/

variable {d d' : Document} {rest rest' : List Char}

/-- A header opens its table. -/
theorem statement_of_header {c : Char} {cs : List Char} (key : Key) (hc : c ≠ '[')
    (hspace : isSpace c = false) (hkey : key? (c :: cs).length (c :: cs) = some (key, ']' :: rest))
    (hopen : d.endSection.openTable key = some d') :
    statement d ('[' :: c :: cs) = .ok (d', rest) := by
  have hfront : (c :: cs).dropWhile isSpace = c :: cs :=
    List.dropWhile_cons_of_neg (by rw [hspace]; exact Bool.false_ne_true)
  rw [statement]
  · simp only [hfront, hkey, hopen]
    rfl
  · intro _ heq
    exact hc (List.cons.inj heq).1

/-- A key is given the value behind it. -/
theorem statement_of_key {c : Char} {cs : List Char} (key : Key) (v : Value) (rest : List Char)
    (hbracket : c ≠ '[') (hcomment : c ≠ '#')
    (hkey : key? (c :: cs).length (c :: cs) = some (key, '=' :: rest))
    (hv : ∀ fuel, value (fuel + 1) fullRoom (rest.dropWhile isSpace) = .ok (v, rest'))
    (hassign : d.assign key v = some d') : statement d (c :: cs) = .ok (d', rest') := by
  rw [statement]
  · simp only [hkey, hv (2 * rest.length + 1), hassign, bind, Except.bind]
    rfl
  · intro _ heq
    exact hbracket (List.cons.inj heq).1
  · intro _ heq
    exact hbracket (List.cons.inj heq).1
  · intro _ heq
    exact hcomment (List.cons.inj heq).1

theorem value_writeText (s : String) (rest : List Char) (hrest : rest.head? ≠ some '"')
    (fuel room : Nat) :
    value (fuel + 1) room ((writeText s).toList ++ rest) = .ok (.text s, rest) := by
  have hchars : (writeText s).toList ++ rest = '"' :: s.toList.flatMap writeChar ++ '"' :: rest := by
    rw [writeText, String.toList_ofList, List.append_assoc]
    rfl
  have hread := textChars?_write s.toList hrest
  rw [hchars]
  show value (fuel + 1) room ('"' :: (s.toList.flatMap writeChar ++ '"' :: rest)) = _
  rw [value]
  · show plain ('"' :: s.toList.flatMap writeChar ++ '"' :: rest) = _
    rw [plain, text?, hread, Option.map_some, String.ofList_toList]
  · exact fun _ heq => absurd (List.cons.inj heq).1 (by decide)
  · exact fun _ heq => absurd (List.cons.inj heq).1 (by decide)

/-- A key is given the text behind it. -/
theorem statement_of_text {c : Char} {cs : List Char} (key : Key) (s : String) (hbracket : c ≠ '[')
    (hcomment : c ≠ '#')
    (hkey : key? (c :: cs).length (c :: cs) =
      some (key, '=' :: ' ' :: ((writeText s).toList ++ '\n' :: rest)))
    (hassign : d.assign key (.text s) = some d') : statement d (c :: cs) = .ok (d', '\n' :: rest) := by
  have hvalue := value_writeText s ('\n' :: rest) nofun
  obtain ⟨u, hu⟩ : ∃ u, (writeText s).toList ++ '\n' :: rest = '"' :: u := by
    rw [writeText, String.toList_ofList]
    exact ⟨_, rfl⟩
  rw [hu] at hvalue hkey
  exact statement_of_key key (.text s) (' ' :: '"' :: u) hbracket hcomment hkey
    (fun fuel => hvalue fuel fullRoom) hassign

/-- A line is read, and then the lines after it. -/
theorem statements_of_line {fuel : Nat} {c : Char} {cs : List Char}
    (h : statement d (c :: cs) = .ok (d', '\n' :: rest)) (hspace : isSpace c = false)
    (hline : c ≠ '\n') : statements (fuel + 1) d (c :: cs) = statements fuel d' rest := by
  have hfront : (c :: cs).dropWhile isSpace = c :: cs :=
    List.dropWhile_cons_of_neg (by rw [hspace]; exact Bool.false_ne_true)
  rw [statements, hfront]
  split
  · rename_i heq
    cases heq
  · rename_i heq
    exact absurd (List.cons.inj heq).1 hline
  · rw [h]
    rfl

/-- A line with nothing on it says nothing. -/
theorem statements_of_blank (fuel : Nat) (d : Document) (rest : List Char) :
    statements (fuel + 1) d ('\n' :: rest) = statements fuel d rest := rfl

end FileTags.Toml
