import TinyScript.Proofs.Grammar
import TinyScript.Proofs.Lexical
import TinyScript.Proofs.Plan.Contents
import TinyScript.Proofs.Text.Inherited

/-!
# The names of a program and its tokens

* `Program.identifiers_eq_names`  the names of a program are the identifiers among its tokens
* `isName_of_ofSource`         the variables of a source text are called by names
* `Text.harmless_of_isName`     so they have neither newlines nor colons
-/

namespace TinyScript

/-- the name of a token, if it is an identifier -/
def Token.ident? : Token → Option String
  | .ident name => some name
  | _ => none

theorem Token.ident?_eq_some {t : Token} {name : String} : t.ident? = some name ↔ t = .ident name := by
  cases t <;> simp [ident?]

section

variable (ts : List Token)

@[simp] theorem filterMap_ident?_ident (name : String) :
    (Token.ident name :: ts).filterMap Token.ident? = name :: ts.filterMap Token.ident? := rfl

@[simp] theorem filterMap_ident?_mark (m : Mark) :
    (Token.mark m :: ts).filterMap Token.ident? = ts.filterMap Token.ident? := rfl

@[simp] theorem filterMap_ident?_keyword (k : Keyword) :
    (Token.keyword k :: ts).filterMap Token.ident? = ts.filterMap Token.ident? := rfl

@[simp] theorem filterMap_ident?_op (op : Operator) :
    (Token.op op :: ts).filterMap Token.ident? = ts.filterMap Token.ident? := rfl

end

/-- the identifiers among the tokens of a program, as often as they occur -/
def Program.identifiers (p : Program) : List String := p.tokens.filterMap Token.ident?

theorem Expr.identifiers_tokens (e : Expr) : e.tokens.filterMap Token.ident? = e.names := by
  induction e with
  | int | float | text | var => rfl
  | group e ih | not e ih | round e ih => simp [Expr.tokens, Expr.names, ih]
  | binary op left right ihl ihr => simp [Expr.tokens, Expr.names, ihl, ihr]

mutual

theorem Stmt.identifiers_tokens : (s : Stmt) →
    s.tokens.filterMap Token.ident? = s.parts.flatMap Stmt.names
  | .assign name value => by
    simp [Stmt.tokens, Stmt.parts, Stmt.names, Expr.identifiers_tokens]
  | .print value => by
    simp [Stmt.tokens, Stmt.parts, Stmt.names, Expr.identifiers_tokens]
  | .ite condition body none => by
    simp [Stmt.tokens, Stmt.parts, Stmt.names, Expr.identifiers_tokens,
      Stmt.identifiers_tokensBlock body]
  | .ite condition body (some other) => by
    simp [Stmt.tokens, Stmt.parts, Stmt.names, Expr.identifiers_tokens,
      Stmt.identifiers_tokensBlock body, Stmt.identifiers_tokensBlock other]
  | .while condition body => by
    simp [Stmt.tokens, Stmt.parts, Stmt.names, Expr.identifiers_tokens,
      Stmt.identifiers_tokensBlock body]
  | .block body => by
    simp [Stmt.tokens, Stmt.parts, Stmt.names, Stmt.identifiers_tokensBlock body]

theorem Stmt.identifiers_tokensBlock : (b : Block) →
    (Stmt.tokensBlock b).filterMap Token.ident? = (Stmt.partsBlock b).flatMap Stmt.names
  | [] => rfl
  | s :: ss => by
    rw [Stmt.tokensBlock, Stmt.partsBlock, List.filterMap_append, List.flatMap_append,
      Stmt.identifiers_tokens s, Stmt.identifiers_tokensBlock ss]

end

/-- **The names of a program are the identifiers among its tokens**, in their order. -/
theorem Program.identifiers_eq_names (p : Program) : p.identifiers = p.names :=
  Stmt.identifiers_tokensBlock p

theorem Program.mem_names_plan_iff {p : Program} {name : String} :
    name ∈ p.plan.names ↔ .ident name ∈ p.tokens := by
  rw [(Plan.exact_plan p).names, List.mem_eraseDups, ← p.identifiers_eq_names, identifiers,
    List.mem_filterMap]
  simp only [Token.ident?_eq_some, exists_eq_right]

theorem Token.Spelled.isName {name : String} {word : List Char}
    (h : Token.Spelled (.ident name) word) : Text.isName name = true := by
  cases h with
  | @ident c cs hc hcs hk =>
    rw [Text.isName, String.toList_ofList, List.all_cons, Scan.isWordChar_of_isLetter hc,
      List.all_eq_true.mpr hcs]
    simpa using hc

theorem isName_of_ofSource {source : String} {p : Program} (h : Program.ofSource source = .ok p) :
    ∀ name ∈ p.plan.names, Text.isName name = true := by
  intro name hname
  obtain ⟨-, -, htokens⟩ := Program.ofSource_eq_ok_iff.mp h
  have hident : .ident name ∈ p.tokens := Program.mem_names_plan_iff.mp hname
  rw [← htokens] at hident
  obtain ⟨t, ht, htoken⟩ := List.mem_map.mp hident
  obtain ⟨word, hword⟩ := spelled_of_mem_scan ht
  rw [htoken] at hword
  exact hword.isName

/-- The letters, digits and underscores of a name are harmless. -/
theorem Text.harmless_of_isName {s : String} (h : Text.isName s = true) : Text.Harmless s := by
  intro c hc
  have hletter := Text.isWordChar_of_isName h c hc
  constructor
  · rintro rfl
    exact absurd hletter (by decide)
  · rintro rfl
    exact absurd hletter (by decide)

end TinyScript
