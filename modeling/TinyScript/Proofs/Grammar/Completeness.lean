import TinyScript.Proofs.Grammar.Reading
import TinyScript.Proofs.Grammar.Spelling

/-!
# What the grammar spells is read

The tokens of a well-formed tree are read without an error, and what was read is the tree.

* `Parse.Admits`            what waits to the left of an operand leaves an expression of a level whole
* `Parse.steps_tokens_expr`      after the tokens of an expression the waiting frames, settled at any
                            level that does not exceed its own, are those from before, with the
                            expression as their operand
* `Parse.readsStmt`, `Parse.readsBlock`    the tokens of statements add the statements
* `Parse.steps_tokens_program`   the tokens of a program
-/

namespace TinyScript.Parse

/-- the innermost waiting operator binds less tightly than an expression of the level -/
def Admits (level : Nat) : List Frame → Prop
  | .not :: _ => 7 ≤ level
  | .binary op _ :: _ => op.binding < level
  | _ => True

theorem Admits.mono {a b : Nat} (hab : a ≤ b) {frames : List Frame} (h : Admits a frames) :
    Admits b frames := by
  match frames with
  | .not :: _ => exact Nat.le_trans h hab
  | .binary _ _ :: _ => exact Nat.lt_of_lt_of_le h hab
  | .group :: _ | .round :: _ | [] => trivial

theorem settle_not (level : Nat) (frames : List Frame) (e : Expr) :
    settle level (.not :: frames) e = settle level frames (.not e) := rfl

theorem settle_binary {level : Nat} {op : Operator} (h : level ≤ op.binding) (left : Expr)
    (frames : List Frame) (e : Expr) :
    settle level (.binary op left :: frames) e = settle level frames (.binary op left e) := by
  rw [settle, op.level_eq_binding, if_pos h]

theorem settle_binary_of_lt {level : Nat} {op : Operator} (h : op.binding < level) (left : Expr)
    (frames : List Frame) (e : Expr) :
    settle level (.binary op left :: frames) e = (.binary op left :: frames, e) := by
  rw [settle, op.level_eq_binding, if_neg (Nat.not_le.mpr h)]

/-- frames that admit a level of a binary operator have nothing to settle at that level -/
theorem settle_of_admits {level : Nat} (hl : level ≤ 6) {frames : List Frame}
    (h : Admits level frames) (e : Expr) : settle level frames e = (frames, e) := by
  match frames with
  | .not :: _ =>
    have h7 : 7 ≤ level := h
    omega
  | .binary op left :: fs => exact settle_binary_of_lt h left fs e
  | .group :: _ | .round :: _ | [] => rfl

variable {done : List Stmt} {enclosing : List (Opener × List Stmt)} {slot : Slot}

/-- A group or a rounding is read as an operand once the expression inside it is. -/
theorem close_settled {frames outer : List Frame} {e x : Expr} {bracket : Frame}
    (hb : bracket = .group ∨ bracket = .round)
    (h : settle 0 frames x = (bracket :: outer, e)) :
    step ⟨done, enclosing, .operator slot frames x⟩ (.mark .rightParen) =
      .ok ⟨done, enclosing, .operator slot outer (if bracket = .group then .group e else .round e)⟩ := by
  rcases hb with rfl | rfl
  · simp only [step, stepOperator, h]
    rfl
  · simp only [step, stepOperator, h]
    rfl

/-- what is left of the frames after the tokens of an expression that was read behind `frames` -/
def ReadsAs (level : Nat) (frames : List Frame) (e : Expr) (after : List Frame) (x : Expr) : Prop :=
  ∀ l ≤ level, settle l after x = settle l frames e

theorem steps_tokens_expr (done : List Stmt) (enclosing : List (Opener × List Stmt)) (slot : Slot)
    (e : Expr) (he : e.WellFormed) (frames : List Frame)
    (ha : Admits e.level frames) :
    ∃ after x, steps ⟨done, enclosing, .operand slot frames⟩ e.tokens =
        .ok ⟨done, enclosing, .operator slot after x⟩ ∧ ReadsAs e.level frames e after x := by
  induction e generalizing frames with
  | int n => exact ⟨frames, .int n, rfl, fun _ _ => rfl⟩
  | float x => exact ⟨frames, .float x, rfl, fun _ _ => rfl⟩
  | text s => exact ⟨frames, .text s, rfl, fun _ _ => rfl⟩
  | var name => exact ⟨frames, .var name, rfl, fun _ _ => rfl⟩
  | group e ih =>
    obtain ⟨after, x, hsteps, hread⟩ := ih he (.group :: frames) trivial
    refine ⟨frames, .group e, ?_, fun _ _ => rfl⟩
    show steps ⟨done, enclosing, .operand slot (.group :: frames)⟩ (e.tokens ++ _) = _
    rw [steps_append hsteps]
    exact steps_cons_of_ok (close_settled (.inl rfl) (hread 0 (Nat.zero_le _))) []
  | binary op left right ihl ihr =>
    obtain ⟨hl, hr, hleft, hright⟩ := he
    have hop : op.binding ≤ 6 := op.binding_le_six
    obtain ⟨mid, x, hsteps, hread⟩ := ihl hl frames (ha.mono hleft)
    -- the operator leaves the frames of the left operand as they were before it
    have hmid : settle op.level mid x = (frames, left) := by
      rw [op.level_eq_binding, hread op.binding hleft, settle_of_admits hop ha]
    obtain ⟨after, y, hsteps', hread'⟩ := ihr hr (.binary op left :: frames) hright
    refine ⟨after, y, ?_, fun l hl' => ?_⟩
    · show steps _ (left.tokens ++ .op op :: right.tokens) = _
      rw [steps_append hsteps]
      have hop' : step ⟨done, enclosing, .operator slot mid x⟩ (.op op) =
          .ok ⟨done, enclosing, .operand slot (.binary op left :: frames)⟩ := by
        show Except.ok (State.mk done enclosing
          (.operand slot (.binary op (settle op.level mid x).2 :: (settle op.level mid x).1))) = _
        rw [hmid]
      rw [steps_cons_of_ok hop', hsteps']
    · have hl₂ : l ≤ op.binding := hl'
      rw [hread' l (by omega), settle_binary hl₂]
  | not e ih =>
    obtain ⟨hwf, hlevel⟩ := he
    obtain ⟨after, x, hsteps, hread⟩ := ih hwf (.not :: frames) hlevel
    refine ⟨after, x, hsteps, fun l hl => ?_⟩
    have hl₇ : l ≤ 7 := hl
    rw [hread l (by omega), settle_not]
  | round e ih =>
    obtain ⟨after, x, hsteps, hread⟩ := ih he (.round :: frames) trivial
    refine ⟨frames, .round e, ?_, fun _ _ => rfl⟩
    show steps ⟨done, enclosing, .operand slot (.round :: frames)⟩ (e.tokens ++ _) = _
    rw [steps_append hsteps]
    exact steps_cons_of_ok (close_settled (.inr rfl) (hread 0 (Nat.zero_le _))) []

theorem steps_tokens_filled (slot : Slot) {e : Expr} (he : e.WellFormed) (rest : List Token) :
    steps ⟨done, enclosing, .operand slot []⟩ (e.tokens ++ slot.closer :: rest) =
      steps (slot.fill ⟨done, enclosing, .statement⟩ e) rest := by
  obtain ⟨after, x, hsteps, hread⟩ := steps_tokens_expr done enclosing slot e he [] trivial
  have h0 : settle 0 after x = ([], e) := hread 0 (Nat.zero_le _)
  rw [steps_append hsteps]
  refine steps_cons_of_ok ?_ rest
  have hclose : step ⟨done, enclosing, .operator slot after x⟩ slot.closer =
      .ok (close ⟨done, enclosing, .operator slot after x⟩ slot [] e) := by
    show stepOperator _ slot after x slot.closer = _
    cases slot <;> (simp only [Slot.closer, stepOperator, h0, closer, if_true])
  rw [hclose]
  cases slot <;> rfl

/-- the state behind the brace that closes a block -/
def Opener.closed (opener : Opener) (body : Block) (before : List Stmt)
    (outer : List (Opener × List Stmt)) : State :=
  match opener with
  | .ifBody condition => ⟨before, outer, .afterIf condition body⟩
  | opener => ⟨opener.close body :: before, outer, .statement⟩

theorem atStatement_closed (opener : Opener) (body : Block) (before : List Stmt)
    (outer : List (Opener × List Stmt)) : (opener.closed body before outer).AtStatement := by
  cases opener <;> rfl

theorem settled_closed (opener : Opener) (body : Block) (before : List Stmt)
    (outer : List (Opener × List Stmt)) :
    (opener.closed body before outer).settled =
      ⟨opener.close body :: before, outer, .statement⟩ := by
  cases opener <;> rfl

/-- What reading the tokens of a block does: its statements are added. -/
def ReadsBlock (b : Block) : Prop :=
  ∀ s : State, s.AtStatement → ∃ s', steps s (Stmt.tokensBlock b) = .ok s' ∧ s'.AtStatement ∧
    s'.settled = ⟨b.reverse ++ s.settled.done, s.settled.enclosing, .statement⟩

theorem steps_braced {b : Block} (hb : ReadsBlock b) (opener : Opener) (done : List Stmt)
    (enclosing : List (Opener × List Stmt)) (rest : List Token) :
    steps ⟨[], (opener, done) :: enclosing, .statement⟩
        (Stmt.tokensBlock b ++ .mark .rightBrace :: rest) =
      steps (opener.closed b done enclosing) rest := by
  obtain ⟨s', hsteps, hs', hsettled⟩ := hb ⟨[], (opener, done) :: enclosing, .statement⟩ rfl
  have hdone : s'.settled = ⟨b.reverse, (opener, done) :: enclosing, .statement⟩ := by
    rw [hsettled]
    show State.mk (b.reverse ++ []) _ _ = _
    rw [List.append_nil]
    rfl
  rw [steps_append hsteps]
  refine steps_cons_of_ok ?_ rest
  rw [step_settled hs' (by simp), hdone]
  cases opener <;> (simp only [stepStatement, Opener.closed, List.reverse_reverse])

theorem steps_cons_settled {s : State} (h : s.AtStatement) {t : Token}
    (ht : t ≠ .keyword .otherwise) {s' : State} (hstep : stepStatement s.settled t = .ok s')
    (ts : List Token) : steps s (t :: ts) = steps s' ts :=
  steps_cons_of_ok ((step_settled h ht).trans hstep) ts

theorem exists_settled {s : State} (h : s.AtStatement) :
    ∃ done enclosing, s.settled = ⟨done, enclosing, .statement⟩ := by
  have hp : s.settled.phase = .statement := h
  exact ⟨s.settled.done, s.settled.enclosing, by rw [← hp]⟩

/-- What reading the tokens of a statement does: the statement is added. -/
def ReadsStmt (stmt : Stmt) : Prop :=
  ∀ s : State, s.AtStatement → ∃ s', steps s stmt.tokens = .ok s' ∧ s'.AtStatement ∧
    s'.settled = s.settled.add stmt

theorem readsStmt_assign {name : String} {value : Expr} (hv : value.WellFormed) :
    ReadsStmt (.assign name value) := by
  intro s hs
  obtain ⟨done, enclosing, hd⟩ := exists_settled hs
  refine ⟨_, ?_, atStatement_add ⟨done, enclosing, .statement⟩ _, by rw [hd, settled_add]⟩
  show steps s (.ident name :: .mark .assign :: (value.tokens ++ [.mark .semicolon])) = _
  rw [steps_cons_settled hs (by simp) (by rw [hd]; rfl)]
  exact (steps_cons_of_ok rfl _).trans (steps_tokens_filled (.assign name) hv [])

theorem readsStmt_print {value : Expr} (hv : value.WellFormed) : ReadsStmt (.print value) := by
  intro s hs
  obtain ⟨done, enclosing, hd⟩ := exists_settled hs
  refine ⟨_, ?_, atStatement_add ⟨done, enclosing, .statement⟩ _, by rw [hd, settled_add]⟩
  show steps s (.keyword .print :: .mark .leftParen ::
    (value.tokens ++ [.mark .rightParen, .mark .semicolon])) = _
  rw [steps_cons_settled hs (by simp) (by rw [hd]; rfl)]
  exact (steps_cons_of_ok rfl _).trans
    (steps_tokens_filled .print hv [.mark .semicolon])

theorem readsStmt_ite_none {condition : Expr} {body : Block} (hc : condition.WellFormed)
    (hb : ReadsBlock body) : ReadsStmt (.ite condition body none) := by
  intro s hs
  obtain ⟨done, enclosing, hd⟩ := exists_settled hs
  refine ⟨(Opener.ifBody condition).closed body done enclosing, ?_, atStatement_closed _ _ _ _,
    by rw [hd, settled_closed]; rfl⟩
  have he : (Stmt.ite condition body none).tokens = .keyword .ifTrue :: .mark .leftParen ::
      (condition.tokens ++ .mark .rightParen :: .mark .leftBrace ::
        (Stmt.tokensBlock body ++ [.mark .rightBrace])) := by
    simp [Stmt.tokens]
  rw [he, steps_cons_settled hs (by simp) (by rw [hd]; rfl), steps_cons_of_ok rfl]
  exact (steps_tokens_filled .ifCondition hc _).trans
    ((steps_cons_of_ok rfl _).trans (steps_braced hb (.ifBody condition) done enclosing []))

theorem readsStmt_ite_some {condition : Expr} {body other : Block} (hc : condition.WellFormed)
    (hb : ReadsBlock body) (ho : ReadsBlock other) :
    ReadsStmt (.ite condition body (some other)) := by
  intro s hs
  obtain ⟨done, enclosing, hd⟩ := exists_settled hs
  refine ⟨(Opener.elseBody condition body).closed other done enclosing, ?_,
    atStatement_closed _ _ _ _, by rw [hd, settled_closed]; rfl⟩
  have he : (Stmt.ite condition body (some other)).tokens =
      .keyword .ifTrue :: .mark .leftParen ::
      (condition.tokens ++ .mark .rightParen :: .mark .leftBrace ::
        (Stmt.tokensBlock body ++ .mark .rightBrace :: .keyword .otherwise :: .mark .leftBrace ::
          (Stmt.tokensBlock other ++ [.mark .rightBrace]))) := by
    simp [Stmt.tokens]
  rw [he, steps_cons_settled hs (by simp) (by rw [hd]; rfl), steps_cons_of_ok rfl]
  have hfirst := steps_braced hb (.ifBody condition) done enclosing
    (.keyword .otherwise :: .mark .leftBrace :: (Stmt.tokensBlock other ++ [.mark .rightBrace]))
  have hsecond := steps_braced ho (.elseBody condition body) done enclosing []
  refine (steps_tokens_filled .ifCondition hc _).trans ((steps_cons_of_ok rfl _).trans ?_)
  exact hfirst.trans ((steps_cons_of_ok rfl _).trans ((steps_cons_of_ok rfl _).trans hsecond))

theorem readsStmt_while {condition : Expr} {body : Block} (hc : condition.WellFormed)
    (hb : ReadsBlock body) : ReadsStmt (.while condition body) := by
  intro s hs
  obtain ⟨done, enclosing, hd⟩ := exists_settled hs
  refine ⟨(Opener.whileBody condition).closed body done enclosing, ?_, atStatement_closed _ _ _ _,
    by rw [hd, settled_closed]; rfl⟩
  have he : (Stmt.while condition body).tokens = .keyword .whileTrue :: .mark .leftParen ::
      (condition.tokens ++ .mark .rightParen :: .mark .leftBrace ::
        (Stmt.tokensBlock body ++ [.mark .rightBrace])) := by
    simp [Stmt.tokens]
  rw [he, steps_cons_settled hs (by simp) (by rw [hd]; rfl), steps_cons_of_ok rfl]
  exact (steps_tokens_filled .whileCondition hc _).trans
    ((steps_cons_of_ok rfl _).trans (steps_braced hb (.whileBody condition) done enclosing []))

theorem readsStmt_block {body : Block} (hb : ReadsBlock body) : ReadsStmt (.block body) := by
  intro s hs
  obtain ⟨done, enclosing, hd⟩ := exists_settled hs
  refine ⟨Opener.bare.closed body done enclosing, ?_, atStatement_closed _ _ _ _,
    by rw [hd, settled_closed]; rfl⟩
  show steps s (.mark .leftBrace :: (Stmt.tokensBlock body ++ [.mark .rightBrace])) = _
  rw [steps_cons_settled hs (by simp) (by rw [hd]; rfl)]
  exact steps_braced hb .bare done enclosing []

mutual

theorem readsStmt : (stmt : Stmt) → stmt.WellFormed → ReadsStmt stmt
  | .assign _ _, h => readsStmt_assign h
  | .print _, h => readsStmt_print h
  | .ite _ body none, h => readsStmt_ite_none h.1 (readsBlock body h.2)
  | .ite _ body (some other), h =>
    readsStmt_ite_some h.1 (readsBlock body h.2.1) (readsBlock other h.2.2)
  | .while _ body, h => readsStmt_while h.1 (readsBlock body h.2)
  | .block body, h => readsStmt_block (readsBlock body h)

theorem readsBlock : (b : Block) → Stmt.WellFormedBlock b → ReadsBlock b
  | [], _ => by
    intro s hs
    refine ⟨s, rfl, hs, ?_⟩
    obtain ⟨done, enclosing, hd⟩ := exists_settled hs
    rw [hd]
    rfl
  | stmt :: b, h => by
    intro s hs
    obtain ⟨s₁, hsteps₁, hs₁, hd₁⟩ := readsStmt stmt h.1 s hs
    obtain ⟨s₂, hsteps₂, hs₂, hd₂⟩ := readsBlock b h.2 s₁ hs₁
    refine ⟨s₂, ?_, hs₂, ?_⟩
    · show steps s (stmt.tokens ++ Stmt.tokensBlock b) = _
      rw [steps_append hsteps₁, hsteps₂]
    · rw [hd₂, hd₁, List.reverse_cons, List.append_assoc]
      rfl

end

theorem steps_tokens_program {p : Program} (h : p.WellFormed) :
    ∃ s, steps .start p.tokens = .ok s ∧ finish s = .ok p := by
  obtain ⟨s, hsteps, hs, hd⟩ := readsBlock p h .start rfl
  refine ⟨s, hsteps, ?_⟩
  rw [finish_settled hs, hd]
  show Except.ok (p.reverse ++ []).reverse = _
  rw [List.append_nil, List.reverse_reverse]

end TinyScript.Parse
