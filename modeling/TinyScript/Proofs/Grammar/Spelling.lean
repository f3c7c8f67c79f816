import TinyScript.Program
import TinyScript.Token

/-!
# How a program is spelled

The grammar of programs, read off the trees.

* `Expr.tokens`, `Stmt.tokens`, `Program.tokens`    the tokens of a tree, with no parentheses but
                                                    those of its groups
* `Operator.binding`                                how tightly a binary operator binds
* `Expr.level`                                      how tightly an expression holds together
* `Expr.WellFormed`, `Stmt.WellFormed`, `Program.WellFormed`   no operand holds together less tightly
                        than its place asks for: a left operand at least as tightly as its operator,
                        a right operand more tightly, the operand of `!` as tightly as `!` itself
-/

namespace TinyScript

namespace Operator

/-- the six levels of the binary operators, from the loosest to the tightest -/
def binding : Operator → Nat
  | .or => 1
  | .and => 2
  | .eq | .ne => 3
  | .lt | .gt | .le | .ge => 4
  | .add | .sub => 5
  | .mul | .div => 6

theorem binding_le_six (op : Operator) : op.binding ≤ 6 := by cases op <;> decide

/-- the table that the reader goes by is the one of the grammar -/
theorem level_eq_binding (op : Operator) : op.level = op.binding := by cases op <;> rfl

end Operator

namespace Expr

/-- Binary operators are at the levels one to six, `!` is at seven; what needs no neighbour on
either side is at eight. -/
def level : Expr → Nat
  | .binary op _ _ => op.binding
  | .not _ => 7
  | _ => 8

def WellFormed : Expr → Prop
  | .int _ | .float _ | .text _ | .var _ => True
  | .group e | .round e => e.WellFormed
  | .binary op left right =>
    left.WellFormed ∧ right.WellFormed ∧ op.binding ≤ left.level ∧ op.binding < right.level
  | .not e => e.WellFormed ∧ 7 ≤ e.level

def tokens : Expr → List Token
  | .int n => [.int n]
  | .float x => [.float x]
  | .text s => [.text s]
  | .var name => [.ident name]
  | .group e => .mark .leftParen :: e.tokens ++ [.mark .rightParen]
  | .binary op left right => left.tokens ++ .op op :: right.tokens
  | .not e => .mark .bang :: e.tokens
  | .round e => .keyword .round :: .mark .leftParen :: e.tokens ++ [.mark .rightParen]

end Expr

namespace Stmt

mutual

def WellFormed : Stmt → Prop
  | .assign _ value => value.WellFormed
  | .print value => value.WellFormed
  | .ite condition body none => condition.WellFormed ∧ WellFormedBlock body
  | .ite condition body (some other) =>
    condition.WellFormed ∧ WellFormedBlock body ∧ WellFormedBlock other
  | .while condition body => condition.WellFormed ∧ WellFormedBlock body
  | .block body => WellFormedBlock body

def WellFormedBlock : Block → Prop
  | [] => True
  | s :: ss => s.WellFormed ∧ WellFormedBlock ss

end

mutual

def tokens : Stmt → List Token
  | .assign name value => .ident name :: .mark .assign :: value.tokens ++ [.mark .semicolon]
  | .print value =>
    .keyword .print :: .mark .leftParen :: value.tokens ++ [.mark .rightParen, .mark .semicolon]
  | .ite condition body none =>
    .keyword .ifTrue :: .mark .leftParen :: condition.tokens ++
      .mark .rightParen :: .mark .leftBrace :: tokensBlock body ++ [.mark .rightBrace]
  | .ite condition body (some other) =>
    .keyword .ifTrue :: .mark .leftParen :: condition.tokens ++
      .mark .rightParen :: .mark .leftBrace :: tokensBlock body ++
      .mark .rightBrace :: .keyword .otherwise :: .mark .leftBrace :: tokensBlock other ++
      [.mark .rightBrace]
  | .while condition body =>
    .keyword .whileTrue :: .mark .leftParen :: condition.tokens ++
      .mark .rightParen :: .mark .leftBrace :: tokensBlock body ++ [.mark .rightBrace]
  | .block body => .mark .leftBrace :: tokensBlock body ++ [.mark .rightBrace]

def tokensBlock : Block → List Token
  | [] => []
  | s :: ss => s.tokens ++ tokensBlock ss

end

theorem tokensBlock_append (as bs : Block) :
    tokensBlock (as ++ bs) = tokensBlock as ++ tokensBlock bs := by
  induction as with
  | nil => rfl
  | cons s ss ih =>
    show s.tokens ++ tokensBlock (ss ++ bs) = s.tokens ++ tokensBlock ss ++ tokensBlock bs
    rw [ih, List.append_assoc]

theorem tokensBlock_singleton (s : Stmt) : tokensBlock [s] = s.tokens := List.append_nil _

theorem wellFormedBlock_append (as bs : Block) :
    WellFormedBlock (as ++ bs) ↔ WellFormedBlock as ∧ WellFormedBlock bs := by
  induction as with
  | nil => exact ⟨fun h => ⟨trivial, h⟩, And.right⟩
  | cons s ss ih =>
    show s.WellFormed ∧ WellFormedBlock (ss ++ bs) ↔ (s.WellFormed ∧ WellFormedBlock ss) ∧ _
    rw [ih, and_assoc]

theorem wellFormedBlock_singleton (s : Stmt) : WellFormedBlock [s] ↔ s.WellFormed :=
  ⟨And.left, fun h => ⟨h, trivial⟩⟩

end Stmt

/-- the program is one that its own tokens spell -/
def Program.WellFormed (p : Program) : Prop := Stmt.WellFormedBlock p

def Program.tokens (p : Program) : List Token := Stmt.tokensBlock p

end TinyScript
