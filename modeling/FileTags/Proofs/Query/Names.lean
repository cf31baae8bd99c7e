import FileTags.Tag
import FileTags.Proofs.Query.Refusal
import FileTags.Proofs.Query.Rendering
/-! # Names in queries

What can be a tag is decided in one place, and what can be named in a query in another: a tag is
refused for one forbidden character, while a query is cut into runs of the characters that are left.
The two agree (`isValid_iff_parse`): a text is a tag if it is not too long and, read as a query, is
the condition on the tag of that name.

* A name is one run, so it is one token, and a query of that token is read as it (`parse_name`).
* Conversely, the names in an expression that was read are those among the tokens, left to right
  (`names_of_parse`), and a token is never anything but a whole run.  So a text that is read as its
  own name is one run; in `(a)` and ` a ` there is a name, but it is not the text.
-/
namespace FileTags.Query

/-! ## Tags can be named -/

/-- The characters that no tag contains are those that no name in a query contains. -/
theorem isForbidden_eq (c : Char) : Tag.isForbidden c = !isNameChar c := by
  have hspecial : Tag.reserved.contains c = isSpecial c := by
    unfold Tag.reserved isSpecial Symbol.ofChar?
    split <;> simp_all
  rw [Tag.isForbidden, isNameChar, hspecial, Bool.not_and, Bool.not_not, Bool.not_not]

theorem isName_iff {text : String} :
    Tag.isName text = true ↔ IsName text ∧ text.length ≤ Tag.maxLength := by
  have hchars : (!text.toList.any Tag.isForbidden) = true ↔
      ∀ c ∈ text.toList, isNameChar c = true := by
    simp [isForbidden_eq]
  have hempty : (!text.isEmpty) = true ↔ text ≠ "" := by simp
  rw [Tag.isName, Bool.and_eq_true, Bool.and_eq_true, hchars, hempty, decide_eq_true_eq]
  constructor
  · rintro ⟨⟨hne, hlength⟩, hall⟩
    exact ⟨⟨hne, hall⟩, hlength⟩
  · rintro ⟨⟨hne, hall⟩, hlength⟩
    exact ⟨⟨hne, hlength⟩, hall⟩

/-- A query that is just a name is read as that name. -/
theorem parse_name {name : String} (h : IsName name) : parse name = .ok (.tag name) := by
  have hnamed : (Expr.tag name).Named := by
    intro n hn
    rwa [List.mem_singleton.1 hn]
  have hderives := hnamed.derives (Nat.zero_le _)
  rw [Expr.toText_tag] at hderives
  exact hderives.parse_eq_ok

/-! ## What is named was written -/

/-- The tag that a symbol names. -/
def Symbol.name? : Symbol → Option String
  | .name tag => some tag
  | _ => none

mutual

/-- Connectives and parentheses name nothing. -/
theorem Operand.names_expr : ∀ o : Operand, o.expr.names = o.symbols.filterMap Symbol.name?
  | .tag name => rfl
  | .group d => by
    rw [Operand.expr, d.names_expr, Operand.symbols]
    simp [List.filterMap_cons, Symbol.name?]

theorem Conjunction.names_expr : ∀ c : Conjunction,
    c.expr.names = c.symbols.filterMap Symbol.name?
  | .one o => o.names_expr
  | .more c o => by
    rw [Conjunction.expr, Expr.names, c.names_expr, o.names_expr, Conjunction.symbols]
    simp [List.filterMap_cons, Symbol.name?]

theorem Disjunction.names_expr : ∀ d : Disjunction,
    d.expr.names = d.symbols.filterMap Symbol.name?
  | .one c => c.names_expr
  | .more d c => by
    rw [Disjunction.expr, Expr.names, d.names_expr, c.names_expr, Disjunction.symbols]
    simp [List.filterMap_cons, Symbol.name?]

end

section Read
variable {query : String} {e : Expr}

/-- **The names in what is read are the names in the query**, left to right. -/
theorem names_of_parse (h : parse query = .ok e) :
    e.names = (tokens query).filterMap fun t => t.symbol.name? := by
  obtain ⟨d, hd, rfl⟩ := exists_derives h
  rw [d.names_expr, hd.symbols_eq, List.filterMap_map]
  rfl

/-- Whatever is read can be written. -/
theorem named_of_parse (h : parse query = .ok e) : e.Named := by
  intro name hname
  rw [names_of_parse h] at hname
  obtain ⟨t, ht, htag⟩ := List.mem_filterMap.1 hname
  have hwritten := (mem_scan ht).2
  generalize t.symbol = s at htag hwritten
  cases s with
  | name tag =>
    obtain rfl := Option.some.inj htag
    exact hwritten
  | opening | closing | both | either => cases htag

end Read

/-- **A text is a tag if and only if it is short enough and, as a query, is read as its own name.** -/
theorem isValid_iff_parse (text : String) :
    Tag.isValid (.text text) = true ↔ text.length ≤ 256 ∧ parse text = .ok (.tag text) := by
  constructor
  · intro h
    obtain ⟨hname, hlength⟩ := isName_iff.1 h
    exact ⟨hlength, parse_name hname⟩
  · rintro ⟨hlength, hparse⟩
    have hname : IsName text := named_of_parse hparse text (List.mem_singleton_self text)
    exact isName_iff.2 ⟨hname, hlength⟩

/-- A text that is read as a tag of another name is no tag. -/
example : parse "(a)" = .ok (.tag "a") ∧ Tag.isValid (.text "(a)") = false := by cbv

end FileTags.Query
