import TinyScript.Program.Interchange
import TinyScript.Proofs.Json.Decodes

/-!
# What becomes of a program that is written and read back

The reader of a document follows the tree that the writer started from, so what it answers can be
computed on the tree: `Program.reloaded` is that answer.  Only two things can go wrong, and the first
one in the order of the document is reported: a bracket is opened that may not be, or a double is not
read.

* `decodes_expr`, `decodes_stmt`   the readers answer what the trees say
* `ofJson_document`                so does the reader of a whole document
-/

namespace TinyScript

/-! ### On trees -/

/-- the answer to a value at which so many brackets may still be opened -/
abbrev Reloading (α : Type) := Nat → Except Json.Fault α

namespace Reloading

variable {α β γ : Type}

def of (outcome : Except Json.Fault α) : Reloading α := fun _ => outcome

/-- what stands inside a bracket -/
def opened (inside : Reloading α) : Reloading α
  | 0 => .error .tooDeep
  | depth + 1 => inside depth

def map (f : α → β) (r : Reloading α) : Reloading β := fun depth => (r depth).map f

/-- one value behind the other -/
def both (r : Reloading α) (s : Reloading β) : Reloading (α × β) := fun depth =>
  r depth >>= fun a => (s depth).map fun b => (a, b)

theorem map_both (r : Reloading α) (s : Reloading β) (f : α × β → γ) (depth : Nat) :
    (r.both s).map f depth = r depth >>= fun a => (s depth).map fun b => f (a, b) := by
  show (r depth >>= fun a => (s depth).map fun b => (a, b)).map f = _
  cases r depth with
  | error fault => rfl
  | ok a => cases s depth <;> rfl

end Reloading

open Reloading (of opened both)

def Expr.reloaded : Expr → Reloading Expr
  | .int n => opened (of (.ok (.int n)))
  | .float x => opened ((of (Json.reloaded x)).map .float)
  | .text s => opened (of (.ok (.text s)))
  | .var name => opened (of (.ok (.var name)))
  | .group e => opened (e.reloaded.map .group)
  | .binary op left right =>
    opened (opened ((both left.reloaded right.reloaded).map fun (left, right) =>
      .binary op left right))
  | .not e => opened (e.reloaded.map .not)
  | .round e => opened (e.reloaded.map .round)

mutual

def Stmt.reloaded : Stmt → Reloading Stmt
  | .assign name value => opened (opened (value.reloaded.map (.assign name)))
  | .print value => opened (opened (value.reloaded.map .print))
  | .ite condition body none =>
    opened (opened ((both condition.reloaded (opened (opened (Stmt.reloadedBlock body)))).map
      fun (condition, body) => .ite condition body none))
  | .ite condition body (some other) =>
    opened (opened ((both condition.reloaded (both (opened (opened (Stmt.reloadedBlock body)))
      (opened (opened (Stmt.reloadedBlock other))))).map
        fun (condition, body, other) => .ite condition body (some other)))
  | .while condition body =>
    opened (opened ((both condition.reloaded (opened (opened (Stmt.reloadedBlock body)))).map
      fun (condition, body) => .while condition body))
  | .block body => opened ((opened (opened (Stmt.reloadedBlock body))).map .block)

/-- the statements of a block, inside its brackets -/
def Stmt.reloadedBlock : Block → Reloading Block
  | [] => of (.ok [])
  | s :: ss => (both s.reloaded (Stmt.reloadedBlock ss)).map fun (s, ss) => s :: ss

end

def Program.reloaded (p : Program) : Except Json.Fault Program :=
  opened (opened (Stmt.reloadedBlock p)) Interchange.nestingLimit

namespace Interchange

open Json (Decodes Fills Gathers)

/-! ### Readers that count the open brackets -/

section Opening

variable {α σ τ : Type} {reader : Nat → Json.Reader α} {inside : Reloading α}

theorem decodes_tag {tags : Json.Tags τ} {content : Nat → τ → Json.Reader α}
    (hzero : reader 0 = Json.Reader.noTagged tags)
    (hsucc : ∀ depth, reader (depth + 1) = Json.Reader.tagged tags (content depth))
    {name : String} {tag : τ} (hfind : tags.find name = .ok tag) {j : Json}
    (h : ∀ depth, Decodes (content depth tag) j (inside depth)) (depth : Nat) :
    Decodes (reader depth) (.object [(name, j)]) (opened inside depth) := by
  cases depth with
  | zero =>
    rw [hzero]
    exact Json.decodes_noTagged tags _
  | succ depth =>
    rw [hsucc]
    exact .tagged hfind (h depth)

theorem decodes_record {title : String} {record : Nat → Json.Record σ α}
    (hzero : reader 0 = Json.Reader.noRecord title)
    (hsucc : ∀ depth, reader (depth + 1) = Json.Reader.record (record depth))
    {members : List (String × Json)}
    (h : ∀ depth, Decodes (Json.Reader.record (record depth)) (.object members) (inside depth))
    (depth : Nat) : Decodes (reader depth) (.object members) (opened inside depth) := by
  cases depth with
  | zero =>
    rw [hzero]
    exact Json.decodes_noRecord title _
  | succ depth =>
    rw [hsucc]
    exact h depth

end Opening

/-! ### Expressions -/

theorem decodes_operator (op : Operator) : Decodes operator (.text op.symbol) (.ok op) := by
  intro depth rest cs hr hcs
  rw [operator, Json.decodes_text op.symbol depth rest cs hr hcs]
  dsimp only [Except.map, bind, Except.bind]
  rw [Operator.ofSymbol?_symbol]
  rfl

theorem decodes_binaryRecord {operand : Json.Reader Expr} {left right : Json}
    {l r : Except Json.Fault Expr} (op : Operator) (hl : Decodes operand left l)
    (hr : Decodes operand right r) :
    Decodes (Json.Reader.record (binaryRecord operand))
      (.object [("op", .text op.symbol), ("left", left), ("right", right)])
      (l >>= fun left => r.map fun right => .binary op left right) := by
  have hfills : Fills (binaryRecord operand).fields (binaryRecord operand).empty
      [("op", .text op.symbol), ("left", left), ("right", right)]
      (.ok op >>= fun op => l >>= fun left => r >>= fun right =>
        .ok ⟨some op, some left, some right⟩) :=
    .cons rfl rfl (decodes_operator op) fun _ => .cons rfl rfl hl fun _ => .cons rfl rfl hr fun _ =>
      .nil
  have hrecord := hfills.record
  cases l with
  | error fault => exact hrecord
  | ok left => cases r <;> exact hrecord

/-- the reader of what follows the tag of an expression -/
def exprContent (depth : Nat) : ExprTag → Json.Reader Expr
  | .int => Json.Reader.map .int Json.Reader.int32
  | .float => Json.Reader.map .float Json.Reader.double
  | .str => Json.Reader.map .text Json.Reader.text
  | .var => Json.Reader.map .var Json.Reader.text
  | .group => Json.Reader.map .group (expr depth)
  | .binary => binary depth
  | .not => Json.Reader.map .not (expr depth)
  | .round => Json.Reader.map .round (expr depth)

theorem decodes_exprTag (tag : ExprTag) {j : Json} {inside : Reloading Expr}
    (h : ∀ depth, Decodes (exprContent depth tag) j (inside depth)) (depth : Nat) :
    Decodes (expr depth) (.object [(exprTags.name tag, j)]) (opened inside depth) := by
  have hfind : exprTags.find (exprTags.name tag) = .ok tag := by cases tag <;> rfl
  refine decodes_tag rfl (fun depth => ?_) hfind h depth
  funext cs
  rw [expr]
  congr

theorem decodes_expr (e : Expr) (depth : Nat) :
    Decodes (expr depth) (ofExpr e) (e.reloaded depth) := by
  induction e generalizing depth with
  | int n => exact decodes_exprTag .int (fun _ => (Json.decodes_int32 n).map Expr.int) depth
  | float x => exact decodes_exprTag .float (fun _ => (Json.decodes_double x).map Expr.float) depth
  | text s => exact decodes_exprTag .str (fun _ => (Json.decodes_text s).map Expr.text) depth
  | var name => exact decodes_exprTag .var (fun _ => (Json.decodes_text name).map Expr.var) depth
  | group e ih => exact decodes_exprTag .group (fun depth => (ih depth).map Expr.group) depth
  | binary op left right ihl ihr =>
    refine decodes_exprTag .binary (decodes_record rfl (fun _ => rfl) fun depth => ?_) depth
    rw [Reloading.map_both]
    exact decodes_binaryRecord op (ihl depth) (ihr depth)
  | not e ih => exact decodes_exprTag .not (fun depth => (ih depth).map Expr.not) depth
  | round e ih => exact decodes_exprTag .round (fun depth => (ih depth).map Expr.round) depth

/-! ### Records of statements -/

section Records

variable {value condition : Json.Reader Expr} {block : Json.Reader Block} {j k m : Json}
  {e : Except Json.Fault Expr} {b o : Except Json.Fault Block}

theorem decodes_assignRecord (name : String) (h : Decodes value j e) :
    Decodes (Json.Reader.record (assignRecord value)) (.object [("name", .text name), ("value", j)])
      (e.map (.assign name)) := by
  have hfills : Fills (assignRecord value).fields (assignRecord value).empty
      [("name", .text name), ("value", j)]
      (.ok name >>= fun name => e >>= fun value => .ok ⟨some name, some value⟩) :=
    .cons rfl rfl (Json.decodes_text name) fun _ => .cons rfl rfl h fun _ => .nil
  have hrecord := hfills.record
  cases e <;> exact hrecord

theorem decodes_printRecord (h : Decodes value j e) :
    Decodes (Json.Reader.record (printRecord value)) (.object [("value", j)]) (e.map .print) := by
  have hfills : Fills (printRecord value).fields (printRecord value).empty [("value", j)]
      (e >>= fun value => .ok (some value)) := .cons rfl rfl h fun _ => .nil
  have hrecord := hfills.record
  cases e <;> exact hrecord

theorem decodes_ifRecord (hc : Decodes condition j e) (hb : Decodes block k b) :
    Decodes (Json.Reader.record (ifRecord condition block))
      (.object [("condition", j), ("then_block", k)])
      (e >>= fun condition => b.map fun body => .ite condition body none) := by
  have hfills : Fills (ifRecord condition block).fields (ifRecord condition block).empty
      [("condition", j), ("then_block", k)]
      (e >>= fun condition => b >>= fun body => .ok ⟨some condition, some body, none⟩) :=
    .cons rfl rfl hc fun _ => .cons rfl rfl hb fun _ => .nil
  have hrecord := hfills.record
  cases e with
  | error fault => exact hrecord
  | ok condition => cases b <;> exact hrecord

theorem decodes_ifElseRecord {members : List (String × Json)} (hc : Decodes condition j e)
    (hb : Decodes block k b) (ho : Decodes block (.object members) o) :
    Decodes (Json.Reader.record (ifRecord condition block))
      (.object [("condition", j), ("then_block", k), ("else_block", .object members)])
      (e >>= fun condition => b >>= fun body => o.map fun other =>
        .ite condition body (some other)) := by
  have hfills : Fills (ifRecord condition block).fields (ifRecord condition block).empty
      [("condition", j), ("then_block", k), ("else_block", .object members)]
      (e >>= fun condition => b >>= fun body => o.map some >>= fun other =>
        .ok ⟨some condition, some body, some other⟩) :=
    .cons rfl rfl hc fun _ => .cons rfl rfl hb fun _ => .cons rfl rfl ho.optional fun _ => .nil
  have hrecord := hfills.record
  cases e with
  | error fault => exact hrecord
  | ok condition =>
    cases b with
    | error fault => exact hrecord
    | ok body => cases o <;> exact hrecord

theorem decodes_whileRecord (hc : Decodes condition j e) (hb : Decodes block k b) :
    Decodes (Json.Reader.record (whileRecord condition block))
      (.object [("condition", j), ("body", k)])
      (e >>= fun condition => b.map fun body => .while condition body) := by
  have hfills : Fills (whileRecord condition block).fields (whileRecord condition block).empty
      [("condition", j), ("body", k)]
      (e >>= fun condition => b >>= fun body => .ok ⟨some condition, some body⟩) :=
    .cons rfl rfl hc fun _ => .cons rfl rfl hb fun _ => .nil
  have hrecord := hfills.record
  cases e with
  | error fault => exact hrecord
  | ok condition => cases b <;> exact hrecord

theorem decodes_statementsRecord (title : String) {statements : Json.Reader Block}
    {js : List Json} (h : Decodes statements (.array js) b) :
    Decodes (Json.Reader.record (statementsRecord title statements)) (ofStatements js) b := by
  have hfills : Fills (statementsRecord title statements).fields
      (statementsRecord title statements).empty [("statements", .array js)]
      (b >>= fun body => .ok (some body)) := .cons rfl rfl h fun _ => .nil
  have hrecord := hfills.record
  cases b <;> exact hrecord

end Records

/-! ### Statements -/

/-- the reader of what follows the tag of a statement -/
def stmtContent (depth : Nat) : StmtTag → Json.Reader Stmt
  | .assign => assign depth
  | .print => print depth
  | .ite => ite depth
  | .while => loop depth
  | .block => Json.Reader.map .block (block depth)

theorem decodes_stmtTag (tag : StmtTag) {j : Json} {inside : Reloading Stmt}
    (h : ∀ depth, Decodes (stmtContent depth tag) j (inside depth)) (depth : Nat) :
    Decodes (stmt depth) (.object [(stmtTags.name tag, j)]) (opened inside depth) := by
  have hfind : stmtTags.find (stmtTags.name tag) = .ok tag := by cases tag <;> rfl
  refine decodes_tag rfl (fun depth => ?_) hfind h depth
  funext cs
  rw [stmt]
  congr

theorem decodes_statements {js : List Json} {inside : Reloading Block}
    (h : ∀ depth, Gathers (stmt depth) js (inside depth)) (depth : Nat) :
    Decodes (statements depth) (.array js) (opened inside depth) := by
  cases depth with
  | zero => exact Json.decodes_noList js
  | succ depth => exact (h depth).list

theorem decodes_block {js : List Json} {inside : Reloading Block}
    (h : ∀ depth, Gathers (stmt depth) js (inside depth)) (depth : Nat) :
    Decodes (block depth) (ofStatements js) (opened (opened inside) depth) :=
  decodes_record rfl (fun _ => rfl)
    (fun depth => decodes_statementsRecord blockTitle (decodes_statements h depth)) depth

mutual

theorem decodes_stmt : (s : Stmt) → (depth : Nat) →
    Decodes (stmt depth) (ofStmt s) (s.reloaded depth)
  | .assign name value => by
    rw [Stmt.reloaded]
    exact decodes_stmtTag .assign (decodes_record rfl (fun _ => rfl) fun depth =>
      decodes_assignRecord name (decodes_expr value depth))
  | .print value => by
    rw [Stmt.reloaded]
    exact decodes_stmtTag .print (decodes_record rfl (fun _ => rfl) fun depth =>
      decodes_printRecord (decodes_expr value depth))
  | .ite condition body none => by
    refine decodes_stmtTag .ite (decodes_record rfl (fun _ => rfl) fun depth => ?_)
    rw [Reloading.map_both]
    exact decodes_ifRecord (decodes_expr condition depth) (decodes_block (gathers_block body) depth)
  | .ite condition body (some other) => by
    refine decodes_stmtTag .ite (decodes_record rfl (fun _ => rfl) fun depth => ?_)
    have hblocks (c : Expr) := Reloading.map_both (opened (opened (Stmt.reloadedBlock body)))
      (opened (opened (Stmt.reloadedBlock other))) (fun (b, o) => Stmt.ite c b (some o)) depth
    rw [Reloading.map_both]
    exact (funext hblocks) ▸ decodes_ifElseRecord (decodes_expr condition depth)
      (decodes_block (gathers_block body) depth) (decodes_block (gathers_block other) depth)
  | .while condition body => by
    refine decodes_stmtTag .while (decodes_record rfl (fun _ => rfl) fun depth => ?_)
    rw [Reloading.map_both]
    exact decodes_whileRecord (decodes_expr condition depth)
      (decodes_block (gathers_block body) depth)
  | .block body => decodes_stmtTag .block fun depth =>
    (decodes_block (gathers_block body) depth).map Stmt.block

theorem gathers_block : (b : Block) → (depth : Nat) →
    Gathers (stmt depth) (ofBlock b) (Stmt.reloadedBlock b depth)
  | [], _ => .nil
  | s :: ss, depth => by
    rw [Stmt.reloadedBlock, Reloading.map_both]
    exact .cons (decodes_stmt s depth) (gathers_block ss depth)

end

theorem decodes_program (p : Program) : Decodes program p.toJson p.reloaded :=
  decodes_statementsRecord programTitle (decodes_statements (gathers_block p) (nestingLimit - 1))

end Interchange

/-- **A document is read as its tree says**, and blanks may stand behind it. -/
theorem Program.ofJson_pretty (p : Program) {blanks : List Char}
    (h : ∀ c ∈ blanks, Json.isBlank c = true) :
    Program.ofJson (String.ofList (Json.pretty 0 blanks p.toJson)) = p.reloaded :=
  (Interchange.decodes_program p).ofDocument h

end TinyScript
