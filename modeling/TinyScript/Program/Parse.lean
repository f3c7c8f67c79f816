import TinyScript.Program
import TinyScript.Token.Scan

/-!
# From tokens to a program

A program is read token by token with a stack of the constructs that are still open, so the state
after some tokens says all that matters about them:

* `Frame`   one thing to the left of an operand that waits for it: a `!`, a binary operator with its
            left operand, or an open parenthesis;
* `Slot`    what the expression that is being read is for;
* `Opener`  what the statements of an open block are for;
* `Phase`   what may come next.

`Parse.step` takes one token, `Parse.finish` is the end of the input, and `Program.ofTokens` runs
them over a list.  An operator closes the waiting operators that bind at least as tightly
(`Parse.settle`), which makes operators of one level associate to the left.
-/

namespace TinyScript

namespace Parse

/-- something to the left of an operand, in the expression that is being read -/
inductive Frame where
  | not
  | binary (op : Operator) (left : Expr)
  | group
  | round
deriving DecidableEq

/-- what an expression is read for -/
inductive Slot where
  | assign (name : String)
  | print
  | ifCondition
  | whileCondition
deriving DecidableEq

inductive Opener where
  | bare
  | ifBody (condition : Expr)
  | elseBody (condition : Expr) (body : Block)
  | whileBody (condition : Expr)
deriving DecidableEq

inductive Phase where
  /-- a statement or the end of the block -/
  | statement
  /-- `else`, or what may follow the finished conditional -/
  | afterIf (condition : Expr) (body : Block)
  | assignMark (name : String)
  | openParen (slot : Slot)
  | openRound (slot : Slot) (frames : List Frame)
  | operand (slot : Slot) (frames : List Frame)
  /-- an operator, or what closes the innermost open thing -/
  | operator (slot : Slot) (frames : List Frame) (e : Expr)
  | printEnd (value : Expr)
  | openBrace (opener : Opener)
deriving DecidableEq

/-- The statements read so far in the innermost open block, the latest first; the open blocks around
it, each with what it is for and the statements before it; and what may come next. -/
structure State where
  done : List Stmt
  enclosing : List (Opener × List Stmt)
  phase : Phase
deriving DecidableEq

def State.start : State := ⟨[], [], .statement⟩

/-- the statement that a closed block makes -/
def Opener.close (opener : Opener) (body : Block) : Stmt :=
  match opener with
  | .bare => .block body
  | .ifBody condition => .ite condition body none
  | .elseBody condition first => .ite condition first (some body)
  | .whileBody condition => .while condition body

def State.add (s : State) (stmt : Stmt) : State :=
  { s with done := stmt :: s.done, phase := .statement }

/-- an operand with the waiting operators to its left that bind at least as tightly as `level` -/
def settle (level : Nat) : List Frame → Expr → List Frame × Expr
  | .not :: frames, e => settle level frames (.not e)
  | .binary op left :: frames, e =>
    if level ≤ op.level then settle level frames (.binary op left e)
    else (.binary op left :: frames, e)
  | frames, e => (frames, e)

def Slot.closer : Slot → Token
  | .assign _ => .mark .semicolon
  | _ => .mark .rightParen

/-- the state after the last token of the expression of a slot -/
def Slot.fill (s : State) (slot : Slot) (e : Expr) : State :=
  match slot with
  | .assign name => s.add (.assign name e)
  | .print => { s with phase := .printEnd e }
  | .ifCondition => { s with phase := .openBrace (.ifBody e) }
  | .whileCondition => { s with phase := .openBrace (.whileBody e) }

/-- the innermost thing that has to be closed: a parenthesis or the slot itself -/
def closer (slot : Slot) : List Frame → Token
  | [] => slot.closer
  | _ => .mark .rightParen

def close (s : State) (slot : Slot) (frames : List Frame) (e : Expr) : State :=
  match frames with
  | .group :: frames => { s with phase := .operator slot frames (.group e) }
  | .round :: frames => { s with phase := .operator slot frames (.round e) }
  | _ => slot.fill s e

def stepStatement (s : State) (t : Token) : Except Expected State :=
  match t with
  | .ident name => .ok { s with phase := .assignMark name }
  | .keyword .print => .ok { s with phase := .openParen .print }
  | .keyword .ifTrue => .ok { s with phase := .openParen .ifCondition }
  | .keyword .whileTrue => .ok { s with phase := .openParen .whileCondition }
  | .mark .leftBrace => .ok ⟨[], (.bare, s.done) :: s.enclosing, .statement⟩
  | .mark .rightBrace =>
    match s.enclosing with
    | [] => .error .statement
    | (.ifBody condition, before) :: enclosing =>
      .ok ⟨before, enclosing, .afterIf condition s.done.reverse⟩
    | (opener, before) :: enclosing =>
      .ok ⟨opener.close s.done.reverse :: before, enclosing, .statement⟩
  | _ => .error .statement

def stepOperand (s : State) (slot : Slot) (frames : List Frame) (t : Token) :
    Except Expected State :=
  match t with
  | .int n => .ok { s with phase := .operator slot frames (.int n) }
  | .float x => .ok { s with phase := .operator slot frames (.float x) }
  | .text t => .ok { s with phase := .operator slot frames (.text t) }
  | .ident name => .ok { s with phase := .operator slot frames (.var name) }
  | .mark .leftParen => .ok { s with phase := .operand slot (.group :: frames) }
  | .mark .bang => .ok { s with phase := .operand slot (.not :: frames) }
  | .keyword .round => .ok { s with phase := .openRound slot frames }
  | _ => .error .expression

def stepOperator (s : State) (slot : Slot) (frames : List Frame) (e : Expr) (t : Token) :
    Except Expected State :=
  match t with
  | .op op =>
    let settled := settle op.level frames e
    .ok { s with phase := .operand slot (.binary op settled.2 :: settled.1) }
  | t =>
    let settled := settle 0 frames e
    if t = closer slot settled.1 then .ok (close s slot settled.1 settled.2)
    else .error (.token (closer slot settled.1))

/-- the state after one token that has to be `wanted` -/
def demand (wanted t : Token) (next : State) : Except Expected State :=
  if t = wanted then .ok next else .error (.token wanted)

/-- the state after one more token, or what would have been right in its place -/
def step (s : State) (t : Token) : Except Expected State :=
  match s.phase with
  | .statement => stepStatement s t
  | .afterIf condition body =>
    if t = .keyword .otherwise then .ok { s with phase := .openBrace (.elseBody condition body) }
    else stepStatement (s.add (.ite condition body none)) t
  | .assignMark name => demand (.mark .assign) t { s with phase := .operand (.assign name) [] }
  | .openParen slot => demand (.mark .leftParen) t { s with phase := .operand slot [] }
  | .openRound slot frames =>
    demand (.mark .leftParen) t { s with phase := .operand slot (.round :: frames) }
  | .operand slot frames => stepOperand s slot frames t
  | .operator slot frames e => stepOperator s slot frames e t
  | .printEnd value => demand (.mark .semicolon) t (s.add (.print value))
  | .openBrace opener =>
    demand (.mark .leftBrace) t ⟨[], (opener, s.done) :: s.enclosing, .statement⟩

/-- the program, if the input may end where a statement may stand -/
def finishStatement (s : State) : Except Expected Program :=
  match s.enclosing with
  | [] => .ok s.done.reverse
  | _ => .error (.token (.mark .rightBrace))

def finish (s : State) : Except Expected Program :=
  match s.phase with
  | .statement => finishStatement s
  | .afterIf condition body => finishStatement (s.add (.ite condition body none))
  | .assignMark _ => .error (.token (.mark .assign))
  | .openParen _ | .openRound _ _ => .error (.token (.mark .leftParen))
  | .operand _ _ => .error .expression
  | .operator slot frames e => .error (.token (closer slot (settle 0 frames e).1))
  | .printEnd _ => .error (.token (.mark .semicolon))
  | .openBrace _ => .error (.token (.mark .leftBrace))

/-- reads tokens from a state on; the input ends on `endLine` -/
def run (endLine : Nat) (s : State) : List Located → Except SourceError Program
  | [] => (finish s).mapError fun expected => ⟨endLine, .unexpectedToken expected none⟩
  | t :: ts =>
    match step s t.token with
    | .ok s => run endLine s ts
    | .error expected => .error ⟨t.line, .unexpectedToken expected (some t.token)⟩

end Parse

def Program.ofTokens (tokens : List Located) (endLine : Nat) : Except SourceError Program :=
  Parse.run endLine .start tokens

/-- The program of a source text.  The whole text is scanned first, so an error of the scan wins
over a token that the grammar does not allow. -/
def Program.ofSource (source : String) : Except SourceError Program :=
  match (scan source).stop with
  | .ok endLine => Program.ofTokens (scan source).tokens endLine
  | .error e => .error e

end TinyScript
