import FileTags.Proofs.Query.Composition
import FileTags.Proofs.Tagger.Catalogue
import Mathlib
/-! # Searching with queries put together

What a query finds is a matter of its expression, and what is typed is a text.  Put together as
texts, queries find what their connective says (`find_composed`): with "either" between them the files
that one of them finds, and with "both" between them, each in parentheses, the files that both find.

With "either" no parentheses are needed, though the text is then read as one row that leans to the
left and not as the join of the two expressions.  Parentheses cost a level of nesting, so there the
queries must leave one free.
-/
namespace FileTags

open FileTags.Action

namespace Query

/-- Parentheses in a query are nested no deeper than `n`. -/
def NestsAtMost (n : Nat) (query : String) : Prop := ∃ d, Derives query d ∧ d.nesting ≤ n

section Composed
variable {p q : String} {a b : Expr}

/-- Two queries with "either" between them make a query, which holds when one of them does. -/
theorem exists_either (hp : parse p = .ok a) (hq : parse q = .ok b) :
    ∃ e, parse (p ++ " | " ++ q) = .ok e ∧
      ∀ tagged, e.holds tagged = (a.holds tagged || b.holds tagged) := by
  obtain ⟨d, hd, rfl⟩ := exists_derives hp
  obtain ⟨d', hd', rfl⟩ := exists_derives hq
  exact ⟨_, (hd.either hd').parse_eq_ok, fun tagged => Disjunction.holds_append tagged d d'⟩

/-- The derivation of a query is known by its expression and leaves a level free. -/
theorem NestsAtMost.exists_derives {n : Nat} (h : NestsAtMost n p) (hp : parse p = .ok a) :
    ∃ d, Derives p d ∧ d.expr = a ∧ d.nesting ≤ n := by
  obtain ⟨d, hd, hn⟩ := h
  have hexpr : d.expr = a := Except.ok.inj (hd.parse_eq_ok.symm.trans hp)
  exact ⟨d, hd, hexpr, hn⟩

/-- In parentheses a query stays the same. -/
theorem parse_group (hn : NestsAtMost 63 p) (hp : parse p = .ok a) :
    parse ("(" ++ p ++ ")") = .ok a := by
  obtain ⟨d, hd, rfl, hfree⟩ := hn.exists_derives hp
  exact (hd.group (Nat.lt_succ_of_le hfree)).parse_eq_ok

/-- Two queries in parentheses with "both" between them are read as their join. -/
theorem parse_both (hn : NestsAtMost 63 p) (hn' : NestsAtMost 63 q) (hp : parse p = .ok a)
    (hq : parse q = .ok b) :
    parse ("(" ++ p ++ ") & (" ++ q ++ ")") = .ok (.join .both a b) := by
  obtain ⟨d, hd, rfl, hfree⟩ := hn.exists_derives hp
  obtain ⟨d', hd', rfl, hfree'⟩ := hn'.exists_derives hq
  exact (hd.both hd' (Nat.lt_succ_of_le hfree) (Nat.lt_succ_of_le hfree')).parse_eq_ok

end Composed

end Query

namespace Tagger

open FileTags.Storage FileTags.Query

variable {σ : Type} {t : Tagger σ} {I : σ → Prop} {v : View} {w : World σ}

/-- **A query finds files**: asked in any world where the storage shows what it shows, it answers
with them; they are the files with tags that the storage shows whose tags meet the query, they come in
increasing order, and each has the tags that the store has for it. -/
structure Finds (t : Tagger σ) (I : σ → Prop) (v : View) (query : String) (found : List TaggedFile) :
    Prop where
  answers : ∀ w, I w.state → (t.find query).Ends w (.ok found) fun w' => I w'.state
  mem_iff : ∃ e, parse query = .ok e ∧ ∀ f, f ∈ found ↔
    v.Listed f.id ∧ f.tags = v.tags f.id ∧ f.tags ≠ [] ∧ meets e f = true
  sorted : found.Pairwise (·.id < ·.id)
  tags : ∀ f ∈ found, ∀ w, I w.state →
    (Store.get t.storage f.id).Ends w (.ok f.tags) fun w' => I w'.state

/-- A query that is read finds the files of the catalogue that meet it. -/
theorem finds_of_parse (hs : t.storage.Shows I v) (hoff : t.sweepOnList = false)
    {files : List TaggedFile} (hf : v.Catalogue files) {query : String} {e : Expr}
    (hq : parse query = .ok e) : t.Finds I v query (files.filter (meets e)) where
  answers _ hw := find_ends hs hoff hf hw hq
  mem_iff := by
    refine ⟨e, hq, fun f => ?_⟩
    rw [List.mem_filter, hf.mem_iff, and_assoc, and_assoc]
  sorted := hf.sorted.filter _
  tags f hfound w hw := by
    obtain ⟨hlisted, htags, -⟩ := (hf.mem_iff f).1 (List.mem_filter.1 hfound).1
    rw [htags]
    exact Store.get_shown hs hw hlisted

/-- **Queries put together find what their connective says.**  Over a storage that can be read, and
without a sweep before listing, two queries with "either" between them find the files that one of
them finds.  If they nest parentheses at most 63 deep, parentheses around one of them change
nothing, and with "both" between them they are read as the join of the two and find the files that
both find. -/
theorem find_composed (hs : t.storage.Shows I v) (hoff : t.sweepOnList = false) (hw : I w.state)
    {p q : String} {a b : Expr} (hp : parse p = .ok a) (hq : parse q = .ok b) :
    ∃ byP byQ byEither : List TaggedFile,
      t.Finds I v p byP ∧ t.Finds I v q byQ ∧ t.Finds I v (p ++ " | " ++ q) byEither ∧
      (∀ f, f ∈ byEither ↔ f ∈ byP ∨ f ∈ byQ) ∧
      (NestsAtMost 63 p → parse ("(" ++ p ++ ")") = .ok a) ∧
      (NestsAtMost 63 p → NestsAtMost 63 q →
        parse ("(" ++ p ++ ") & (" ++ q ++ ")") = .ok (.join .both a b) ∧
        ∃ byBoth, t.Finds I v ("(" ++ p ++ ") & (" ++ q ++ ")") byBoth ∧
          ∀ f, f ∈ byBoth ↔ f ∈ byP ∧ f ∈ byQ) := by
  obtain ⟨files, hf⟩ := exists_catalogue hs hw
  obtain ⟨e, he, hholds⟩ := exists_either hp hq
  have heither : ∀ f, meets e f = true ↔ meets a f = true ∨ meets b f = true := by
    intro f
    rw [meets, hholds, Bool.or_eq_true]
    rfl
  have hboth : ∀ f, meets (.join .both a b) f = true ↔ meets a f = true ∧ meets b f = true := by
    intro f
    rw [meets, Expr.holds_both, Bool.and_eq_true]
    rfl
  refine ⟨_, _, _, finds_of_parse hs hoff hf hp, finds_of_parse hs hoff hf hq,
    finds_of_parse hs hoff hf he, ?_, ?_, ?_⟩
  · intro f
    rw [List.mem_filter, List.mem_filter, List.mem_filter, heither, and_or_left]
  · intro hn
    exact parse_group hn hp
  · intro hn hn'
    have hparse := parse_both hn hn' hp hq
    refine ⟨hparse, _, finds_of_parse hs hoff hf hparse, fun f => ?_⟩
    rw [List.mem_filter, List.mem_filter, List.mem_filter, hboth, and_and_left]

/-- One record repeats a tag, one holds a number, and one holds nothing. -/
theorem find_composed_of_odd_records :
    let t : Tagger Table := ⟨memory, ⟨"/work", { own := "/home/user" }⟩, false, fun _ => .ok true⟩
    let table : Table :=
      [("b", [.text "x", .text "y", .text "x"]), ("a", [.int 3, .text "y"]), ("c", [])]
    memory.Shows (· = table) table.view ∧ t.sweepOnList = false ∧
      parse "x | y" = .ok (.join .either (.tag "x") (.tag "y")) ∧
      parse "y & (x | z)" =
        .ok (.join .both (.tag "y") (.join .either (.tag "x") (.tag "z"))) ∧
      NestsAtMost 63 "x | y" ∧ NestsAtMost 63 "y & (x | z)" ∧
      ∃ byP byQ byEither : List TaggedFile,
        t.Finds (· = table) table.view "x | y" byP ∧
        t.Finds (· = table) table.view "y & (x | z)" byQ ∧
        t.Finds (· = table) table.view ("x | y" ++ " | " ++ "y & (x | z)") byEither ∧
        (∀ f, f ∈ byEither ↔ f ∈ byP ∨ f ∈ byQ) ∧
        ∃ byBoth,
          t.Finds (· = table) table.view ("(" ++ "x | y" ++ ") & (" ++ "y & (x | z)" ++ ")") byBoth ∧
          ∀ f, f ∈ byBoth ↔ f ∈ byP ∧ f ∈ byQ := by
  intro t table
  have hs : memory.Shows (· = table) table.view := memory_shows (by decide)
  have hp : parse "x | y" = .ok (.join .either (.tag "x") (.tag "y")) := by cbv
  have hq : parse "y & (x | z)" =
      .ok (.join .both (.tag "y") (.join .either (.tag "x") (.tag "z"))) := by cbv
  have hn : NestsAtMost 63 "x | y" :=
    ⟨.more (.one (.one (.tag "x"))) (.one (.tag "y")), ⟨by cbv, by decide⟩, by decide⟩
  have hn' : NestsAtMost 63 "y & (x | z)" :=
    ⟨.one (.more (.one (.tag "y"))
      (.group (.more (.one (.one (.tag "x"))) (.one (.tag "z"))))), ⟨by cbv, by decide⟩, by decide⟩
  obtain ⟨byP, byQ, byEither, hbyP, hbyQ, hbyEither, heither, -, hboth⟩ :=
    find_composed (t := t) (w := ⟨table, Log.start 0⟩) hs rfl rfl hp hq
  obtain ⟨-, byBoth, hbyBoth, hmem⟩ := hboth hn hn'
  exact ⟨hs, rfl, hp, hq, hn, hn', byP, byQ, byEither, hbyP, hbyQ, hbyEither, heither, byBoth,
    hbyBoth, hmem⟩

end Tagger

end FileTags
