import TinyScript.Proofs.Decimal.Layout
import TinyScript.Proofs.Except
import TinyScript.Proofs.Lexical.Names
import TinyScript.Proofs.Sexpr.Items

/-!
# A program is read back from its S-expression

The head of a list says what kind of node it stands for, and its items are the parts of the node.

* `Node.eq_of_sexpr`           the node and the items of a list are read back
* `Expr.sexpr_injective`       an expression is read back
* `Stmt.sexpr_injective`       so is a statement
* `program_eq_of_sexpr_eq`     two programs of source texts with one S-expression are the same
-/

namespace TinyScript

open Items

/-! ### Nodes -/

/-- the kinds of nodes below the root -/
inductive Node where
  | int | float | text | var | group | binary (op : Operator) | not | round
  | assign | print | ite | while | block
deriving DecidableEq

namespace Node

def head : Node → String
  | .int => "int"
  | .float => "float"
  | .text => "str"
  | .var => "var"
  | .group => "group"
  | .binary op => op.symbol
  | .not => "!"
  | .round => "round"
  | .assign => "assign"
  | .print => "print"
  | .ite => "if"
  | .while => "while"
  | .block => "block"

def all : List Node :=
  [.int, .float, .text, .var, .group, .not, .round, .assign, .print, .ite, .while, .block] ++
    Operator.all.map .binary

theorem mem_all (n : Node) : n ∈ all := by
  cases n with
  | binary op => exact List.mem_append_right _ (List.mem_map_of_mem op.mem_all)
  | _ => decide

theorem head_injective {m n : Node} (h : m.head = n.head) : m = n := by
  have hall : ∀ m ∈ all, ∀ n ∈ all, m.head = n.head → m = n := by decide +kernel
  exact hall m m.mem_all n n.mem_all h

theorem passes_head (n : Node) : Passes n.head.toList := by
  have hall : ∀ n ∈ all, IsWord n.head.toList := by decide +kernel
  exact passes_word (hall n n.mem_all)

theorem passes_sexpr (n : Node) {items : List String} (h : ∀ i ∈ items, Passes i.toList) :
    Passes (sexpr n.head items).toList :=
  Items.passes_sexpr n.passes_head h

/-- The node and the items of a list are read back from its text. -/
theorem eq_of_sexpr {m n : Node} {items items' : List String} (h : ∀ i ∈ items, Passes i.toList)
    (h' : ∀ i ∈ items', Passes i.toList) (heq : sexpr m.head items = sexpr n.head items') :
    m = n ∧ items = items' := by
  obtain ⟨hhead, hitems⟩ := sexpr_injective (List.forall_mem_cons.mpr ⟨m.passes_head, h⟩)
    (List.forall_mem_cons.mpr ⟨n.passes_head, h'⟩) heq
  exact ⟨head_injective hhead, hitems⟩

end Node

/-! ### Numbers and names -/

theorem passes_integer (n : Int) : Passes (Decimal.integer n).toList := by
  refine passes_word fun c hc => ?_
  rw [Decimal.integer, String.toList_ofList] at hc
  refine ⟨?_, ?_, ?_, ?_⟩ <;>
  · rintro rfl
    exact Decimal.not_mem_integerDigits rfl (by decide) n hc

theorem passes_float (x : Float) : Passes (Decimal.Layout.inspected.text x).toList := by
  refine passes_word fun c hc => ?_
  rw [Decimal.Layout.text, String.toList_ofList] at hc
  refine ⟨?_, ?_, ?_, ?_⟩ <;>
  · rintro rfl
    exact Decimal.Layout.not_mem_write _ rfl (by decide) x hc

/-- The letters, digits and underscores of an identifier separate no items. -/
theorem passes_name_of_ofSource {source : String} {p : Program}
    (h : Program.ofSource source = .ok p) : ∀ name ∈ p.plan.names, Passes name.toList := by
  intro name hname
  refine passes_word fun c hc => ?_
  have hletter := Text.isWordChar_of_isName (isName_of_ofSource h name hname) c hc
  refine ⟨?_, ?_, ?_, ?_⟩ <;>
  · rintro rfl
    exact absurd hletter (by decide)

/-! ### Expressions -/

namespace Expr

def node : Expr → Node
  | .int _ => .int
  | .float _ => .float
  | .text _ => .text
  | .var _ => .var
  | .group _ => .group
  | .binary op _ _ => .binary op
  | .not _ => .not
  | .round _ => .round

def items : Expr → List String
  | .int n => [Decimal.integer n.toInt]
  | .float x => [Decimal.Layout.inspected.text x]
  | .text s => [Text.quoted s]
  | .var name => [name]
  | .group e | .not e | .round e => [e.sexpr]
  | .binary _ left right => [left.sexpr, right.sexpr]

theorem sexpr_eq (e : Expr) : e.sexpr = TinyScript.sexpr e.node.head e.items := by
  cases e <;> rfl

/-- the names of an expression are told from what follows them -/
def NamesPass (e : Expr) : Prop := ∀ name ∈ e.names, Passes name.toList

theorem NamesPass.left {op : Operator} {left right : Expr} (h : (binary op left right).NamesPass) :
    left.NamesPass :=
  fun name hname => h name (List.mem_append_left _ hname)

theorem NamesPass.right {op : Operator} {left right : Expr} (h : (binary op left right).NamesPass) :
    right.NamesPass :=
  fun name hname => h name (List.mem_append_right _ hname)

theorem passes_sexpr_of_items {e : Expr} (h : ∀ i ∈ e.items, Passes i.toList) :
    Passes e.sexpr.toList := by
  rw [sexpr_eq]
  exact e.node.passes_sexpr h

theorem passes_items {e : Expr} (h : e.NamesPass) : ∀ i ∈ e.items, Passes i.toList := by
  induction e with
  | int n => exact List.forall_mem_singleton.mpr (passes_integer n.toInt)
  | float x => exact List.forall_mem_singleton.mpr (passes_float x)
  | text s => exact List.forall_mem_singleton.mpr (passes_quoted s)
  | var name => exact h
  | group e ih | not e ih | round e ih =>
    exact List.forall_mem_singleton.mpr (passes_sexpr_of_items (ih h))
  | binary op left right ihl ihr =>
    exact List.forall_mem_cons.mpr ⟨passes_sexpr_of_items (ihl h.left),
      List.forall_mem_singleton.mpr (passes_sexpr_of_items (ihr h.right))⟩

theorem passes_sexpr {e : Expr} (h : e.NamesPass) : Passes e.sexpr.toList :=
  passes_sexpr_of_items (passes_items h)

theorem node_items_eq {e e' : Expr} (h : e.NamesPass) (h' : e'.NamesPass)
    (heq : e.sexpr = e'.sexpr) : e.node = e'.node ∧ e.items = e'.items := by
  rw [sexpr_eq, sexpr_eq e'] at heq
  exact Node.eq_of_sexpr (passes_items h) (passes_items h') heq

/-- An expression is read back: its node leaves one case for the other expression, and its items have
the parts. -/
theorem sexpr_injective {e e' : Expr} (h : e.NamesPass) (h' : e'.NamesPass)
    (heq : e.sexpr = e'.sexpr) : e = e' := by
  induction e generalizing e' with
  | int n =>
    obtain ⟨hnode, hitems⟩ := node_items_eq h h' heq
    cases e' <;> cases hnode
    exact congrArg Expr.int
      (Int32.toInt_inj.mp (Decimal.integer_injective (List.singleton_inj.mp hitems)))
  | float x =>
    obtain ⟨hnode, hitems⟩ := node_items_eq h h' heq
    cases e' <;> cases hnode
    exact congrArg Expr.float (Decimal.Layout.text_injective _ (List.singleton_inj.mp hitems))
  | text s =>
    obtain ⟨hnode, hitems⟩ := node_items_eq h h' heq
    cases e' <;> cases hnode
    exact congrArg Expr.text (Text.quoted_injective (List.singleton_inj.mp hitems))
  | var name =>
    obtain ⟨hnode, hitems⟩ := node_items_eq h h' heq
    cases e' <;> cases hnode
    exact congrArg Expr.var (List.singleton_inj.mp hitems)
  | group e ih =>
    obtain ⟨hnode, hitems⟩ := node_items_eq h h' heq
    cases e' <;> cases hnode
    exact congrArg Expr.group (ih h h' (List.singleton_inj.mp hitems))
  | not e ih =>
    obtain ⟨hnode, hitems⟩ := node_items_eq h h' heq
    cases e' <;> cases hnode
    exact congrArg Expr.not (ih h h' (List.singleton_inj.mp hitems))
  | round e ih =>
    obtain ⟨hnode, hitems⟩ := node_items_eq h h' heq
    cases e' <;> cases hnode
    exact congrArg Expr.round (ih h h' (List.singleton_inj.mp hitems))
  | binary op left right ihl ihr =>
    obtain ⟨hnode, hitems⟩ := node_items_eq h h' heq
    cases e' <;> cases hnode
    obtain ⟨hleft, hrest⟩ := List.cons.inj hitems
    rw [ihl h.left h'.left hleft, ihr h.right h'.right (List.singleton_inj.mp hrest)]

end Expr

/-! ### Statements -/

namespace Stmt

def node : Stmt → Node
  | .assign _ _ => .assign
  | .print _ => .print
  | .ite _ _ _ => .ite
  | .while _ _ => .while
  | .block _ => .block

def items : Stmt → List String
  | .assign name value => [name, value.sexpr]
  | .print value => [value.sexpr]
  | .ite condition body none => [condition.sexpr, (Stmt.block body).sexpr]
  | .ite condition body (some other) =>
    [condition.sexpr, (Stmt.block body).sexpr, (Stmt.block other).sexpr]
  | .while condition body => [condition.sexpr, (Stmt.block body).sexpr]
  | .block body => Stmt.sexprs body

theorem sexpr_eq (s : Stmt) : s.sexpr = TinyScript.sexpr s.node.head s.items := by
  cases s with
  | ite condition body other => cases other <;> rfl
  | _ => rfl

/-- the names of a statement are told from what follows them, inside of it too -/
def NamesPass (s : Stmt) : Prop := ∀ t ∈ s.parts, ∀ name ∈ t.names, Passes name.toList

def NamesPassBlock (b : Block) : Prop :=
  ∀ t ∈ Stmt.partsBlock b, ∀ name ∈ t.names, Passes name.toList

theorem namesPassBlock_cons {s : Stmt} {ss : Block} :
    NamesPassBlock (s :: ss) ↔ s.NamesPass ∧ NamesPassBlock ss :=
  List.forall_mem_append

theorem namesPass_assign {name : String} {value : Expr} :
    (assign name value).NamesPass ↔ Passes name.toList ∧ value.NamesPass :=
  List.forall_mem_singleton.trans List.forall_mem_cons

theorem namesPass_print {value : Expr} : (print value).NamesPass ↔ value.NamesPass :=
  List.forall_mem_singleton

theorem namesPass_ite_none {condition : Expr} {body : Block} :
    (ite condition body none).NamesPass ↔ condition.NamesPass ∧ NamesPassBlock body :=
  List.forall_mem_cons

theorem namesPass_ite_some {condition : Expr} {body other : Block} :
    (ite condition body (some other)).NamesPass ↔
      condition.NamesPass ∧ NamesPassBlock body ∧ NamesPassBlock other :=
  List.forall_mem_cons.trans (and_congr_right' List.forall_mem_append)

theorem namesPass_while {condition : Expr} {body : Block} :
    («while» condition body).NamesPass ↔ condition.NamesPass ∧ NamesPassBlock body :=
  List.forall_mem_cons

theorem namesPass_block {body : Block} : (block body).NamesPass ↔ NamesPassBlock body :=
  List.forall_mem_cons.trans (and_iff_right nofun)

theorem passes_sexpr_of_items {s : Stmt} (h : ∀ i ∈ s.items, Passes i.toList) :
    Passes s.sexpr.toList := by
  rw [sexpr_eq]
  exact s.node.passes_sexpr h

mutual

theorem passes_items : (s : Stmt) → s.NamesPass → ∀ i ∈ s.items, Passes i.toList
  | .assign name value, h => by
    obtain ⟨hname, hvalue⟩ := namesPass_assign.mp h
    exact List.forall_mem_cons.mpr
      ⟨hname, List.forall_mem_singleton.mpr (Expr.passes_sexpr hvalue)⟩
  | .print value, h =>
    List.forall_mem_singleton.mpr (Expr.passes_sexpr (namesPass_print.mp h))
  | .ite condition body none, h => by
    obtain ⟨hcondition, hbody⟩ := namesPass_ite_none.mp h
    exact List.forall_mem_cons.mpr ⟨Expr.passes_sexpr hcondition,
      List.forall_mem_singleton.mpr (passes_sexpr_of_items (passes_sexprs body hbody))⟩
  | .ite condition body (some other), h => by
    obtain ⟨hcondition, hbody, hother⟩ := namesPass_ite_some.mp h
    exact List.forall_mem_cons.mpr ⟨Expr.passes_sexpr hcondition,
      List.forall_mem_cons.mpr ⟨passes_sexpr_of_items (passes_sexprs body hbody),
        List.forall_mem_singleton.mpr (passes_sexpr_of_items (passes_sexprs other hother))⟩⟩
  | .while condition body, h => by
    obtain ⟨hcondition, hbody⟩ := namesPass_while.mp h
    exact List.forall_mem_cons.mpr ⟨Expr.passes_sexpr hcondition,
      List.forall_mem_singleton.mpr (passes_sexpr_of_items (passes_sexprs body hbody))⟩
  | .block body, h => passes_sexprs body (namesPass_block.mp h)

theorem passes_sexprs : (b : Block) → NamesPassBlock b → ∀ i ∈ Stmt.sexprs b, Passes i.toList
  | [], _ => nofun
  | s :: ss, h => by
    obtain ⟨hs, hss⟩ := namesPassBlock_cons.mp h
    exact List.forall_mem_cons.mpr
      ⟨passes_sexpr_of_items (passes_items s hs), passes_sexprs ss hss⟩

end

theorem node_items_eq {s s' : Stmt} (h : s.NamesPass) (h' : s'.NamesPass)
    (heq : s.sexpr = s'.sexpr) : s.node = s'.node ∧ s.items = s'.items := by
  rw [sexpr_eq, sexpr_eq s'] at heq
  exact Node.eq_of_sexpr (passes_items s h) (passes_items s' h') heq

/-- The statements of a block are the items of its list. -/
theorem sexprs_eq_of_block {b b' : Block} (h : NamesPassBlock b) (h' : NamesPassBlock b')
    (heq : (block b).sexpr = (block b').sexpr) : Stmt.sexprs b = Stmt.sexprs b' :=
  (node_items_eq (namesPass_block.mpr h) (namesPass_block.mpr h') heq).2

mutual

/-- A statement is read back as an expression is.  Whether there is a second block is told by the
number of the items. -/
theorem sexpr_injective : (s s' : Stmt) → s.NamesPass → s'.NamesPass → s.sexpr = s'.sexpr → s = s'
  | .assign name value, s', h, h', heq => by
    obtain ⟨hnode, hitems⟩ := node_items_eq h h' heq
    cases s' <;> cases hnode
    obtain ⟨rfl, hrest⟩ := List.cons.inj hitems
    rw [Expr.sexpr_injective (namesPass_assign.mp h).2 (namesPass_assign.mp h').2
      (List.singleton_inj.mp hrest)]
  | .print value, s', h, h', heq => by
    obtain ⟨hnode, hitems⟩ := node_items_eq h h' heq
    cases s' <;> cases hnode
    rw [Expr.sexpr_injective (namesPass_print.mp h) (namesPass_print.mp h')
      (List.singleton_inj.mp hitems)]
  | .ite condition body none, s', h, h', heq => by
    obtain ⟨hnode, hitems⟩ := node_items_eq h h' heq
    obtain ⟨hcondition, hbody⟩ := namesPass_ite_none.mp h
    cases s' <;> cases hnode
    case ite condition' body' other' =>
    cases other' with
    | some other' => cases congrArg List.length hitems
    | none =>
      obtain ⟨hcondition', hbody'⟩ := namesPass_ite_none.mp h'
      obtain ⟨hhead, hrest⟩ := List.cons.inj hitems
      have hblock := sexprs_eq_of_block hbody hbody' (List.singleton_inj.mp hrest)
      rw [Expr.sexpr_injective hcondition hcondition' hhead,
        sexprs_injective body body' hbody hbody' hblock]
  | .ite condition body (some other), s', h, h', heq => by
    obtain ⟨hnode, hitems⟩ := node_items_eq h h' heq
    obtain ⟨hcondition, hbody, hother⟩ := namesPass_ite_some.mp h
    cases s' <;> cases hnode
    case ite condition' body' other' =>
    cases other' with
    | none => cases congrArg List.length hitems
    | some other' =>
      obtain ⟨hcondition', hbody', hother'⟩ := namesPass_ite_some.mp h'
      obtain ⟨hhead, hrest⟩ := List.cons.inj hitems
      obtain ⟨hfirst, hsecond⟩ := List.cons.inj hrest
      have hblock := sexprs_eq_of_block hbody hbody' hfirst
      have hblock' := sexprs_eq_of_block hother hother' (List.singleton_inj.mp hsecond)
      rw [Expr.sexpr_injective hcondition hcondition' hhead,
        sexprs_injective body body' hbody hbody' hblock,
        sexprs_injective other other' hother hother' hblock']
  | .while condition body, s', h, h', heq => by
    obtain ⟨hnode, hitems⟩ := node_items_eq h h' heq
    obtain ⟨hcondition, hbody⟩ := namesPass_while.mp h
    cases s' <;> cases hnode
    case «while» condition' body' =>
    obtain ⟨hcondition', hbody'⟩ := namesPass_while.mp h'
    obtain ⟨hhead, hrest⟩ := List.cons.inj hitems
    have hblock := sexprs_eq_of_block hbody hbody' (List.singleton_inj.mp hrest)
    rw [Expr.sexpr_injective hcondition hcondition' hhead,
      sexprs_injective body body' hbody hbody' hblock]
  | .block body, s', h, h', heq => by
    obtain ⟨hnode, hitems⟩ := node_items_eq h h' heq
    cases s' <;> cases hnode
    case block body' =>
    rw [sexprs_injective body body' (namesPass_block.mp h) (namesPass_block.mp h') hitems]

theorem sexprs_injective : (b b' : Block) → NamesPassBlock b → NamesPassBlock b' →
    Stmt.sexprs b = Stmt.sexprs b' → b = b'
  | [], [], _, _, _ => rfl
  | [], _ :: _, _, _, heq | _ :: _, [], _, _, heq => by cases heq
  | s :: ss, s' :: ss', h, h', heq => by
    obtain ⟨hs, hss⟩ := namesPassBlock_cons.mp h
    obtain ⟨hs', hss'⟩ := namesPassBlock_cons.mp h'
    obtain ⟨hfirst, hrest⟩ := List.cons.inj heq
    rw [sexpr_injective s s' hs hs' hfirst, sexprs_injective ss ss' hss hss' hrest]

end

end Stmt

/-! ### Programs -/

theorem namesPass_of_ofSource {source : String} {p : Program} (h : Program.ofSource source = .ok p) :
    Stmt.NamesPassBlock p :=
  fun t ht name hname => passes_name_of_ofSource h name (Plan.mem_names_plan.mpr ⟨t, ht, hname⟩)

/-- The root has a head that no node has, but a program is never the item of a list. -/
theorem sexprs_eq_of_program {p p' : Program} (h : Stmt.NamesPassBlock p)
    (h' : Stmt.NamesPassBlock p') (heq : p.sexpr = p'.sexpr) : Stmt.sexprs p = Stmt.sexprs p' := by
  have hroot : Passes "program".toList := passes_word (by decide)
  exact (sexpr_injective (List.forall_mem_cons.mpr ⟨hroot, Stmt.passes_sexprs p h⟩)
    (List.forall_mem_cons.mpr ⟨hroot, Stmt.passes_sexprs p' h'⟩) heq).2

/-- **The S-expression of a program says which program it is**, among all that are read from source
texts. -/
theorem program_eq_of_sexpr_eq {source source' : String} {p p' : Program}
    (h : Program.ofSource source = .ok p) (h' : Program.ofSource source' = .ok p')
    (heq : p.sexpr = p'.sexpr) : p = p' := by
  have hp := namesPass_of_ofSource h
  have hp' := namesPass_of_ofSource h'
  exact Stmt.sexprs_injective p p' hp hp' (sexprs_eq_of_program hp hp' heq)

/-- a text with brackets, a space and a backslash in it, and an empty second block -/
def spacious : String :=
  "s = \"a) (b\\\";  # a text\nif (!(s == 1)) \x7b\n  print(2.50);\n\x7d else \x7b \x7d\n"

/-- the same program without blanks and with its numbers spelled in another way -/
def dense : String := "s=\"a) (b\\\";if(!(s==01))\x7bprint(2.5);\x7delse\x7b\x7d"

theorem program_eq_of_sexpr_eq_layouts : ∃ p p' : Program,
    Program.ofSource spacious = .ok p ∧ Program.ofSource dense = .ok p' ∧
      p.sexpr = "(program (assign s (str \"a) (b\\\\\")) " ++
        "(if (! (group (== (var s) (int 1)))) (block (print (float 2.5))) (block)))" ∧
      p.sexpr = p'.sexpr ∧ p = p' := by
  let p : Program := [.assign "s" (.text "a) (b\\"),
    .ite (.not (.group (.binary .eq (.var "s") (.int 1)))) [.print (.float 2.5)] (some [])]
  have hspacious : Program.ofSource spacious = .ok p := by decide +kernel
  have hdense : Program.ofSource dense = .ok p := by decide +kernel
  exact ⟨p, p, hspacious, hdense, by decide +kernel, rfl,
    program_eq_of_sexpr_eq hspacious hdense rfl⟩

end TinyScript
