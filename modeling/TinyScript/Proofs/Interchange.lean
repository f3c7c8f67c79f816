import TinyScript.Pipeline
import TinyScript.Proofs.Except
import TinyScript.Proofs.Interchange.Reloading

/-!
# The interchange form is read back

A program is read back from its document if every double in it is, and if no more brackets are open
at once than the reader allows.  If only the brackets are too many, this is what the reader reports.

* `Reloads`                  what is needed for a tree to be read back, and what it implies
* `reloads_program`          doubles and brackets are all that matters
* `document_loads_back`      a document is read back as its program, or is nested too deep
* `loads_back_iff`           the programs that are read back from their dump
* `sources_not_loaded_back`  source texts whose programs are not
-/

namespace TinyScript

/-! ### Doubles of a program -/

def Expr.floats : Expr → List Float
  | .int _ | .text _ | .var _ => []
  | .float x => [x]
  | .group e | .not e | .round e => e.floats
  | .binary _ left right => left.floats ++ right.floats

mutual

def Stmt.floats : Stmt → List Float
  | .assign _ value | .print value => value.floats
  | .ite condition body none => condition.floats ++ Stmt.floatsBlock body
  | .ite condition body (some other) =>
    condition.floats ++ (Stmt.floatsBlock body ++ Stmt.floatsBlock other)
  | .while condition body => condition.floats ++ Stmt.floatsBlock body
  | .block body => Stmt.floatsBlock body

def Stmt.floatsBlock : Block → List Float
  | [] => []
  | s :: ss => s.floats ++ Stmt.floatsBlock ss

end

def Program.floats (p : Program) : List Float := Stmt.floatsBlock p

/-- The text of a double is a document from which the double is read. -/
def Json.ReadsBack (x : Float) : Prop := Json.reloaded x = .ok x

instance (x : Float) : Decidable (Json.ReadsBack x) :=
  inferInstanceAs (Decidable (Json.reloaded x = .ok x))

/-! ### When a tree is read back -/

/-- A tree with so many brackets around each other is read back as `a` under the condition `P`, if
its brackets may be opened, and only under this condition. -/
structure Reloads {α : Type} (r : Reloading α) (a : α) (nesting : Nat) (P : Prop) : Prop where
  limited (h : P) (depth : Nat) : r depth = if nesting ≤ depth then .ok a else .error .tooDeep
  only (depth : Nat) (h : r depth = .ok a) : P

namespace Reloads

variable {α β : Type} {r : Reloading α} {s : Reloading β} {a : α} {b : β} {n m : Nat} {P Q : Prop}

theorem congr (h : Reloads r a n P) (hn : n = m) (hp : P ↔ Q) : Reloads r a m Q := by
  rwa [← hn, ← propext hp]

theorem of_ok (a : α) : Reloads (.of (.ok a)) a 0 True where
  limited _ depth := (if_pos (Nat.zero_le depth)).symm
  only _ _ := trivial

theorem of_reloaded (x : Float) : Reloads (.of (Json.reloaded x)) x 0 (Json.ReadsBack x) where
  limited h depth := h.trans (if_pos (Nat.zero_le depth)).symm
  only _ h := h

theorem opened (h : Reloads r a n P) : Reloads r.opened a (n + 1) P where
  limited hp depth := by
    cases depth with
    | zero => rfl
    | succ depth =>
      show r depth = _
      rw [h.limited hp]
      simp only [Nat.add_le_add_iff_right]
  only depth hr := by
    cases depth with
    | zero => cases hr
    | succ depth => exact h.only depth hr

theorem map (h : Reloads r a n P) {f : α → β} (hf : ∀ a', f a' = f a → a' = a) :
    Reloads (r.map f) (f a) n P where
  limited hp depth := by
    show (r depth).map f = _
    rw [h.limited hp]
    split <;> rfl
  only depth hr := by
    replace hr : (r depth).map f = .ok (f a) := hr
    cases hread : r depth with
    | error fault => rw [hread] at hr; cases hr
    | ok a' =>
      rw [hread] at hr
      have ha : a' = a := hf a' (Except.ok.inj hr)
      exact h.only depth (ha ▸ hread)

/-- Of two values the first one is read first, so a bracket too many is reported wherever it is. -/
theorem both (h : Reloads r a n P) (h' : Reloads s b m Q) :
    Reloads (r.both s) (a, b) (max n m) (P ∧ Q) where
  limited hpq depth := by
    show (r depth >>= fun a => (s depth).map fun b => (a, b)) = _
    rw [h.limited hpq.1, h'.limited hpq.2]
    by_cases hn : n ≤ depth
    · by_cases hm : m ≤ depth
      · rw [if_pos hn, if_pos hm, if_pos (Nat.max_le.mpr ⟨hn, hm⟩)]
        rfl
      · rw [if_pos hn, if_neg hm, if_neg fun hmax => hm (Nat.max_le.mp hmax).2]
        rfl
    · rw [if_neg hn, if_neg fun hmax => hn (Nat.max_le.mp hmax).1]
      rfl
  only depth hr := by
    replace hr : (r depth >>= fun a => (s depth).map fun b => (a, b)) = .ok (a, b) := hr
    cases hfirst : r depth with
    | error fault => rw [hfirst] at hr; cases hr
    | ok a' =>
      cases hsecond : s depth with
      | error fault => rw [hfirst, hsecond] at hr; cases hr
      | ok b' =>
        rw [hfirst, hsecond] at hr
        cases hr
        exact ⟨h.only depth hfirst, h'.only depth hsecond⟩

end Reloads

/-! ### Brackets -/

namespace Interchange

open Json (nesting nestingElements nestingMembers)

theorem nesting_text (s : String) : (Json.text s).nesting = 0 := rfl

theorem nesting_tagged (name : String) (j : Json) :
    (Json.object [(name, j)]).nesting = j.nesting + 1 := by
  rw [nesting, nestingMembers, nestingMembers, Nat.max_zero]

theorem nesting_pair (first second : String) (j k : Json) :
    (Json.object [(first, j), (second, k)]).nesting = max j.nesting k.nesting + 1 := by
  rw [nesting, nestingMembers, nestingMembers, nestingMembers, Nat.max_zero]

theorem nesting_triple (first second third : String) (j k m : Json) :
    (Json.object [(first, j), (second, k), (third, m)]).nesting =
      max j.nesting (max k.nesting m.nesting) + 1 := by
  rw [nesting, nestingMembers, nestingMembers, nestingMembers, nestingMembers, Nat.max_zero]

theorem nesting_ofStatements (js : List Json) :
    (ofStatements js).nesting = nestingElements js + 1 + 1 := by
  rw [ofStatements, nesting_tagged, nesting]

end Interchange

/-! ### Programs -/

section Trees

open Interchange
open Json (ReadsBack nestingElements)

theorem reloads_expr (e : Expr) :
    Reloads e.reloaded e (ofExpr e).nesting (∀ x ∈ e.floats, ReadsBack x) := by
  induction e with
  | int n => exact (Reloads.of_ok (Expr.int n)).opened.congr rfl (by simp [Expr.floats])
  | float x =>
    exact ((Reloads.of_reloaded x).map fun _ => Expr.float.inj).opened.congr rfl
      (by simp [Expr.floats])
  | text s => exact (Reloads.of_ok (Expr.text s)).opened.congr rfl (by simp [Expr.floats])
  | var name => exact (Reloads.of_ok (Expr.var name)).opened.congr rfl (by simp [Expr.floats])
  | group e ih =>
    exact (ih.map fun _ => Expr.group.inj).opened.congr (nesting_tagged _ _).symm Iff.rfl
  | binary op left right ihl ihr =>
    refine ((ihl.both ihr).map (f := fun x => Expr.binary op x.1 x.2) ?_).opened.opened.congr ?_ ?_
    · rintro ⟨l, r⟩ h
      cases h
      rfl
    · rw [ofExpr, nesting_tagged, nesting_triple, nesting_text, Nat.zero_max]
    · exact List.forall_mem_append.symm
  | not e ih => exact (ih.map fun _ => Expr.not.inj).opened.congr (nesting_tagged _ _).symm Iff.rfl
  | round e ih =>
    exact (ih.map fun _ => Expr.round.inj).opened.congr (nesting_tagged _ _).symm Iff.rfl

mutual

theorem reloads_stmt : (s : Stmt) →
    Reloads s.reloaded s (ofStmt s).nesting (∀ x ∈ s.floats, ReadsBack x)
  | .assign name value => by
    rw [Stmt.reloaded]
    refine ((reloads_expr value).map (f := Stmt.assign name) ?_).opened.opened.congr ?_ Iff.rfl
    · exact fun _ h => (Stmt.assign.inj h).2
    · rw [ofStmt, nesting_tagged, nesting_pair, nesting_text, Nat.zero_max]
  | .print value => by
    rw [Stmt.reloaded]
    refine ((reloads_expr value).map (f := Stmt.print) ?_).opened.opened.congr ?_ Iff.rfl
    · exact fun _ => Stmt.print.inj
    · rw [ofStmt, nesting_tagged, nesting_tagged]
  | .ite condition body none => by
    have hparts := (reloads_expr condition).both (reloads_block body).opened.opened
    refine (hparts.map (f := fun (c, b) => Stmt.ite c b none) ?_).opened.opened.congr ?_ ?_
    · rintro ⟨c, b⟩ h
      cases h
      rfl
    · rw [ofStmt, nesting_tagged, nesting_pair, nesting_ofStatements]
    · exact List.forall_mem_append.symm
  | .ite condition body (some other) => by
    have hparts := (reloads_expr condition).both
      ((reloads_block body).opened.opened.both (reloads_block other).opened.opened)
    refine (hparts.map (f := fun (c, b, o) => Stmt.ite c b (some o)) ?_).opened.opened.congr ?_ ?_
    · rintro ⟨c, b, o⟩ h
      cases h
      rfl
    · rw [ofStmt, nesting_tagged, nesting_triple, nesting_ofStatements, nesting_ofStatements]
    · rw [Stmt.floats, List.forall_mem_append, List.forall_mem_append]
  | .while condition body => by
    have hparts := (reloads_expr condition).both (reloads_block body).opened.opened
    refine (hparts.map (f := fun (c, b) => Stmt.while c b) ?_).opened.opened.congr ?_ ?_
    · rintro ⟨c, b⟩ h
      cases h
      rfl
    · rw [ofStmt, nesting_tagged, nesting_pair, nesting_ofStatements]
    · exact List.forall_mem_append.symm
  | .block body => by
    refine ((reloads_block body).opened.opened.map (f := Stmt.block) ?_).opened.congr ?_ Iff.rfl
    · exact fun _ => Stmt.block.inj
    · rw [ofStmt, nesting_tagged, nesting_ofStatements]

theorem reloads_block : (b : Block) →
    Reloads (Stmt.reloadedBlock b) b (nestingElements (ofBlock b))
      (∀ x ∈ Stmt.floatsBlock b, ReadsBack x)
  | [] => (Reloads.of_ok []).congr rfl (by simp [Stmt.floatsBlock])
  | s :: ss => by
    refine (((reloads_stmt s).both (reloads_block ss)).map (f := fun (s, ss) => s :: ss) ?_).congr
      rfl ?_
    · rintro ⟨t, ts⟩ h
      cases h
      rfl
    · exact List.forall_mem_append.symm

end

end Trees

/-- Doubles and brackets decide what becomes of a program. -/
theorem reloads_program (p : Program) :
    Reloads (Reloading.opened (Reloading.opened (Stmt.reloadedBlock p))) p p.toJson.nesting
      (∀ x ∈ p.floats, Json.ReadsBack x) :=
  (reloads_block p).opened.opened.congr (Interchange.nesting_ofStatements _).symm Iff.rfl

/-- what is read from a document, or from the file that it is written to -/
theorem ofJson_dump (p : Program) {dump : String}
    (h : dump ∈ [p.document, TreeFormat.json.render p]) : Program.ofJson dump = p.reloaded := by
  simp only [List.mem_cons, List.not_mem_nil, or_false] at h
  rcases h with rfl | rfl
  · exact p.ofJson_pretty (List.forall_mem_nil _)
  · have hfile : TreeFormat.json.render p = String.ofList (Json.pretty 0 ['\n'] p.toJson) := by
      rw [← List.nil_append ['\n'], Json.pretty_append, String.ofList_append]
      rfl
    rw [hfile]
    exact p.ofJson_pretty fun c hc => by rw [List.mem_singleton.mp hc]; rfl

/-- **The interchange form is read back, up to the limit of its brackets.**  A program of which every
double is read back from its text is loaded from its document, and from the file that the document is
written to, if at most 127 brackets are open at once; if there are more, loading fails because of
them. -/
theorem document_loads_back (name : String) (p : Program) (h : ∀ x ∈ p.floats, Json.ReadsBack x)
    {dump : String} (hdump : dump ∈ [p.document, TreeFormat.json.render p]) :
    (p.toJson.nesting ≤ 127 → Loaded.ofDocument name dump = .ok ⟨name, p⟩) ∧
      (127 < p.toJson.nesting → ∃ e, Loaded.ofDocument name dump = .error e ∧
        e.chain = ["Failed to read parse tree JSON: recursion limit exceeded"]) := by
  have hread : Program.ofJson dump = if p.toJson.nesting ≤ 127 then .ok p else .error .tooDeep :=
    (ofJson_dump p hdump).trans ((reloads_program p).limited h 127)
  constructor
  · intro hnesting
    rw [Loaded.ofDocument, hread, if_pos hnesting]
  · intro hnesting
    refine ⟨.document .tooDeep, ?_, rfl⟩
    rw [Loaded.ofDocument, hread, if_neg (Nat.not_le_of_lt hnesting)]

/-- a program with every kind of statement, of which the dump needs escapes, signs and exponents -/
def motley : Program :=
  [.assign "größe \"x\"\n" (.float 1e-7),
    .ite (.var "größe \"x\"\n") [.print (.text "\x01\t\\")] (some []),
    .while (.not (.int (-2147483648))) [.block [], .ite (.round (.float (-0.0))) [] none]]

/-- one value in so many parentheses -/
def nested (n : Nat) : Expr := Nat.repeat Expr.group n (.int 1)

theorem document_loads_back_motley :
    Loaded.ofDocument "ast.json" (TreeFormat.json.render motley) = .ok ⟨"ast.json", motley⟩ ∧
      ∃ e, Loaded.ofDocument "ast.json" (Program.document [.print (nested 123)]) = .error e ∧
        e.chain = ["Failed to read parse tree JSON: recursion limit exceeded"] := by
  have hshallow := document_loads_back "ast.json" motley (by decide +kernel)
    (List.mem_cons_of_mem _ List.mem_cons_self)
  have hdeep := document_loads_back "ast.json" [.print (nested 123)] (by decide +kernel)
    List.mem_cons_self
  exact ⟨hshallow.1 (by decide +kernel), hdeep.2 (by decide +kernel)⟩

/-- **The programs that are read back from their dump**, whatever is read from the others. -/
theorem loads_back_iff (p : Program) :
    Program.ofJson (TreeFormat.json.render p) = .ok p ↔
      p.toJson.nesting ≤ 127 ∧ ∀ x ∈ p.floats, Json.ReadsBack x := by
  have hread := ofJson_dump p (List.mem_cons_of_mem _ List.mem_cons_self)
  rw [hread]
  constructor
  · intro h
    have hfloats : ∀ x ∈ p.floats, Json.ReadsBack x := (reloads_program p).only 127 h
    refine ⟨Nat.le_of_not_lt fun hnesting => ?_, hfloats⟩
    have hdeep := (reloads_program p).limited hfloats 127
    rw [if_neg (Nat.not_le_of_lt hnesting)] at hdeep
    rw [Program.reloaded, Interchange.nestingLimit, hdeep] at h
    cases h
  · rintro ⟨hnesting, hfloats⟩
    exact ((reloads_program p).limited hfloats 127).trans (if_pos hnesting)

/-! ### Source programs that are not read back -/

theorem Program.ofSource_ofList (cs : List Char) :
    Program.ofSource (String.ofList cs) =
      match (Scan.items (cs.length + 1) 1 cs).stop with
      | .ok endLine => Program.ofTokens (Scan.items (cs.length + 1) 1 cs).tokens endLine
      | .error e => .error e := by
  have hscan : scan (String.ofList cs) = Scan.items (cs.length + 1) 1 cs := by
    rw [scan, String.toList_ofList]
  show (match (scan (String.ofList cs)).stop with
    | .ok endLine => Program.ofTokens (scan (String.ofList cs)).tokens endLine
    | .error e => .error e) = _
  rw [hscan]

/-- a whole number with so many zeros, as a double -/
def hugeSource (zeros : Nat) : List Char :=
  ['a', '=', '1'] ++ List.replicate zeros '0' ++ ['.', '0', ';']

def nestedSource (n : Nat) : List Char :=
  ['a', '='] ++ List.replicate n '(' ++ ['1'] ++ List.replicate n ')' ++ [';']

/-- A double may come back as its neighbour, a number too large for a double does not come back at
all, and neither do too many parentheses. -/
theorem sources_not_loaded_back :
    (∃ p q, Program.ofSource "a = 9.222222222222221;" = .ok p ∧
      Program.ofJson (TreeFormat.json.render p) = .ok q ∧ q ≠ p) ∧
    (∃ p, Program.ofSource (String.ofList (hugeSource 309)) = .ok p ∧
      Program.ofJson (TreeFormat.json.render p) = .error (.invalidType .null "f64")) ∧
    (∃ p, Program.ofSource (String.ofList (nestedSource 123)) = .ok p ∧
      Program.ofJson (TreeFormat.json.render p) = .error .tooDeep) := by
  have hread (p : Program) : Program.ofJson (TreeFormat.json.render p) = p.reloaded :=
    ofJson_dump p (List.mem_cons_of_mem _ List.mem_cons_self)
  have hhuge := Program.ofSource_ofList (hugeSource 309)
  have hnested := Program.ofSource_ofList (nestedSource 123)
  refine ⟨⟨[.assign "a" (.float 9.222222222222221)], [.assign "a" (.float 9.22222222222222)],
    by decide +kernel, ?_, by decide +kernel⟩,
    ⟨[.assign "a" (.float (1 / 0))], hhuge.trans (by decide +kernel), ?_⟩,
    ⟨[.assign "a" (nested 123)], hnested.trans (by decide +kernel), ?_⟩⟩
  · exact (hread _).trans (by decide +kernel)
  · exact (hread _).trans (by decide +kernel)
  · exact (hread _).trans (by decide +kernel)

end TinyScript
