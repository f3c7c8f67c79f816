import TinyScript.Operator

/-!
# Programs

The tree of a program.  What kind of statement a node is was decided when the tree was built, and
parentheses are kept, so that a tree and its source text have the same shape.
-/

namespace TinyScript

inductive Expr where
  | int (n : Int32)
  | float (x : Float)
  | text (s : String)
  | var (name : String)
  | group (e : Expr)
  | binary (op : Operator) (left right : Expr)
  | not (e : Expr)
  | round (e : Expr)
deriving DecidableEq

/-- the expression without the parentheses around it -/
def Expr.ungrouped : Expr → Expr
  | .group e => e.ungrouped
  | e => e

inductive Stmt where
  | assign (name : String) (value : Expr)
  | print (value : Expr)
  /-- a condition with its block and perhaps a block for the other case -/
  | ite (condition : Expr) (body : List Stmt) (other : Option (List Stmt))
  | while (condition : Expr) (body : List Stmt)
  /-- a bare block, which opens no scope -/
  | block (body : List Stmt)

abbrev Block := List Stmt

abbrev Program := List Stmt

mutual

def Stmt.decEq : (a b : Stmt) → Decidable (a = b)
  | .assign n v, .assign n' v' =>
    if h : n = n' ∧ v = v' then isTrue (by rw [h.1, h.2]) else isFalse (by simpa using h)
  | .print v, .print v' =>
    if h : v = v' then isTrue (by rw [h]) else isFalse (by simpa using h)
  | .ite c b none, .ite c' b' none =>
    match Stmt.decEqBlock b b' with
    | isTrue hb =>
      if h : c = c' then isTrue (by rw [h, hb]) else isFalse (fun e => h (Stmt.ite.inj e).1)
    | isFalse hb => isFalse (fun e => hb (Stmt.ite.inj e).2.1)
  | .ite c b (some o), .ite c' b' (some o') =>
    match Stmt.decEqBlock b b', Stmt.decEqBlock o o' with
    | isTrue hb, isTrue ho =>
      if h : c = c' then isTrue (by rw [h, hb, ho]) else isFalse (fun e => h (Stmt.ite.inj e).1)
    | isFalse hb, _ => isFalse (fun e => hb (Stmt.ite.inj e).2.1)
    | _, isFalse ho => isFalse (fun e => ho (Option.some.inj (Stmt.ite.inj e).2.2))
  | .while c b, .while c' b' =>
    match Stmt.decEqBlock b b' with
    | isTrue hb =>
      if h : c = c' then isTrue (by rw [h, hb]) else isFalse (fun e => h (Stmt.while.inj e).1)
    | isFalse hb => isFalse (fun e => hb (Stmt.while.inj e).2)
  | .block b, .block b' =>
    match Stmt.decEqBlock b b' with
    | isTrue hb => isTrue (by rw [hb])
    | isFalse hb => isFalse (fun e => hb (Stmt.block.inj e))
  | .assign .., .print .. | .assign .., .ite .. | .assign .., .while .. | .assign .., .block ..
  | .print .., .assign .. | .print .., .ite .. | .print .., .while .. | .print .., .block ..
  | .ite .., .assign .. | .ite .., .print .. | .ite .., .while .. | .ite .., .block ..
  | .ite _ _ none, .ite _ _ (some _) | .ite _ _ (some _), .ite _ _ none
  | .while .., .assign .. | .while .., .print .. | .while .., .ite .. | .while .., .block ..
  | .block .., .assign .. | .block .., .print .. | .block .., .ite .. | .block .., .while .. =>
    isFalse (by simp)

def Stmt.decEqBlock : (a b : List Stmt) → Decidable (a = b)
  | [], [] => isTrue rfl
  | [], _ :: _ | _ :: _, [] => isFalse (by simp)
  | s :: ss, t :: ts =>
    match Stmt.decEq s t, Stmt.decEqBlock ss ts with
    | isTrue hs, isTrue hss => isTrue (by rw [hs, hss])
    | isFalse hs, _ => isFalse (fun e => hs (List.cons.inj e).1)
    | _, isFalse hss => isFalse (fun e => hss (List.cons.inj e).2)

end

instance : DecidableEq Stmt := Stmt.decEq

end TinyScript
