import TinyScript.Proofs.Grammar.Completeness

/-!
# What is read is what the grammar spells

Every state of the reader spells the tokens that led to it, and holds only well-formed trees.

* `Parse.State.spelled`    the tokens that a state stands for
* `Parse.State.Proper`     its trees are well formed, and what waits binds ever more tightly
* `Parse.step_spelled`     a token that is read is added to what is spelled
* `Parse.finish_spelled`   the program at the end is spelled by the last state
-/

namespace TinyScript.Parse

/-! ### Expressions -/

/-- the tokens of the frames that wait, the innermost of which comes last in the text -/
def spelledFrames : List Frame → List Token
  | [] => []
  | .not :: frames => spelledFrames frames ++ [.mark .bang]
  | .binary op left :: frames => spelledFrames frames ++ left.tokens ++ [.op op]
  | .group :: frames => spelledFrames frames ++ [.mark .leftParen]
  | .round :: frames => spelledFrames frames ++ [.keyword .round, .mark .leftParen]

/-- left operands are well formed and hold together as their operators ask, and every frame binds
more tightly than the one around it -/
def ProperFrames : List Frame → Prop
  | [] => True
  | .not :: frames => ProperFrames frames
  | .binary op left :: frames =>
    left.WellFormed ∧ op.binding ≤ left.level ∧ Admits op.binding frames ∧ ProperFrames frames
  | .group :: frames | .round :: frames => ProperFrames frames

/-- an expression that is complete as far as it was read -/
structure ProperOperand (frames : List Frame) (e : Expr) : Prop where
  proper : ProperFrames frames
  wellFormed : e.WellFormed
  admits : Admits e.level frames

theorem admits_of_seven_le {level : Nat} (h : 7 ≤ level) (frames : List Frame) :
    Admits level frames := by
  match frames with
  | .not :: _ => exact h
  | .binary op _ :: _ =>
    have hop := op.binding_le_six
    show op.binding < level
    omega
  | .group :: _ | .round :: _ | [] => trivial

/-- what holds of frames and an operand when all that binds tightly enough was closed -/
structure Settled (level : Nat) (frames : List Frame) (e : Expr) (after : List Frame × Expr) :
    Prop where
  proper : ProperOperand after.1 after.2
  level_le : level ≤ after.2.level
  admits : Admits level after.1
  spelled : spelledFrames after.1 ++ after.2.tokens = spelledFrames frames ++ e.tokens

theorem settled_settle {level : Nat} (hl : level ≤ 6) {frames : List Frame} {e : Expr}
    (h : ProperOperand frames e) (he : level ≤ e.level) :
    Settled level frames e (settle level frames e) := by
  induction frames generalizing e with
  | nil => exact ⟨h, he, trivial, rfl⟩
  | cons frame frames ih =>
    cases frame with
    | not =>
      have hnot : ProperOperand frames (.not e) :=
        ⟨h.proper, ⟨h.wellFormed, h.admits⟩, admits_of_seven_le (Nat.le_refl 7) frames⟩
      have hs := ih hnot (show level ≤ 7 by omega)
      exact ⟨hs.proper, hs.level_le, hs.admits,
        hs.spelled.trans (by simp [spelledFrames, Expr.tokens])⟩
    | binary op left =>
      obtain ⟨hwf, hlevel, hadmits, hframes⟩ := h.proper
      by_cases hop : level ≤ op.binding
      · rw [settle_binary hop]
        have hbin : ProperOperand frames (.binary op left e) :=
          ⟨hframes, ⟨hwf, h.wellFormed, hlevel, h.admits⟩, hadmits⟩
        have hs := ih hbin hop
        exact ⟨hs.proper, hs.level_le, hs.admits,
          hs.spelled.trans (by simp [spelledFrames, Expr.tokens])⟩
      · have hlt : op.binding < level := Nat.not_le.mp hop
        rw [settle_binary_of_lt hlt]
        exact ⟨h, he, hlt, rfl⟩
    | group => exact ⟨h, he, trivial, rfl⟩
    | round => exact ⟨h, he, trivial, rfl⟩

/-! ### States -/

/-- the tokens in front of the expression of a slot, and the mark that opens it -/
def Slot.lead : Slot → List Token
  | .assign name => [.ident name]
  | .print => [.keyword .print]
  | .ifCondition => [.keyword .ifTrue]
  | .whileCondition => [.keyword .whileTrue]

def Slot.opening : Slot → Token
  | .assign _ => .mark .assign
  | _ => .mark .leftParen

/-- the tokens of the statement that a block belongs to, up to the brace of the block -/
def Opener.lead : Opener → List Token
  | .bare => []
  | .ifBody condition =>
    .keyword .ifTrue :: .mark .leftParen :: condition.tokens ++ [.mark .rightParen]
  | .elseBody condition body =>
    (Stmt.ite condition body none).tokens ++ [.keyword .otherwise]
  | .whileBody condition =>
    .keyword .whileTrue :: .mark .leftParen :: condition.tokens ++ [.mark .rightParen]

def Opener.Proper : Opener → Prop
  | .bare => True
  | .ifBody condition | .whileBody condition => condition.WellFormed
  | .elseBody condition body => condition.WellFormed ∧ Stmt.WellFormedBlock body

def Phase.spelled : Phase → List Token
  | .statement => []
  | .afterIf condition body => (Stmt.ite condition body none).tokens
  | .assignMark name => [.ident name]
  | .openParen slot => slot.lead
  | .openRound slot frames =>
    slot.lead ++ slot.opening :: spelledFrames frames ++ [.keyword .round]
  | .operand slot frames => slot.lead ++ slot.opening :: spelledFrames frames
  | .operator slot frames e => slot.lead ++ slot.opening :: spelledFrames frames ++ e.tokens
  | .printEnd value =>
    .keyword .print :: .mark .leftParen :: value.tokens ++ [.mark .rightParen]
  | .openBrace opener => opener.lead

def Phase.Proper : Phase → Prop
  | .statement | .assignMark _ => True
  | .afterIf condition body => condition.WellFormed ∧ Stmt.WellFormedBlock body
  | .openParen slot => slot.opening = .mark .leftParen
  | .openRound _ frames | .operand _ frames => ProperFrames frames
  | .operator _ frames e => ProperOperand frames e ∧ e.level = 8
  | .printEnd value => value.WellFormed
  | .openBrace opener => opener.Proper

/-- the tokens up to the innermost open brace -/
def spelledEnclosing : List (Opener × List Stmt) → List Token
  | [] => []
  | (opener, before) :: outer =>
    spelledEnclosing outer ++ Stmt.tokensBlock before.reverse ++ opener.lead ++ [.mark .leftBrace]

def ProperEnclosing : List (Opener × List Stmt) → Prop
  | [] => True
  | (opener, before) :: outer =>
    opener.Proper ∧ Stmt.WellFormedBlock before.reverse ∧ ProperEnclosing outer

def State.spelled (s : State) : List Token :=
  spelledEnclosing s.enclosing ++ Stmt.tokensBlock s.done.reverse ++ s.phase.spelled

structure State.Proper (s : State) : Prop where
  done : Stmt.WellFormedBlock s.done.reverse
  enclosing : ProperEnclosing s.enclosing
  phase : s.phase.Proper

/-- one more token was read, and everything read so far is well formed -/
def Extends (s : State) (t : Token) (s' : State) : Prop :=
  s'.Proper ∧ s'.spelled = s.spelled ++ [t]

theorem proper_start : State.start.Proper := ⟨trivial, trivial, trivial⟩

variable {done : List Stmt} {enclosing : List (Opener × List Stmt)}

theorem extends_phase {phase phase' : Phase} {t : Token}
    (h : State.Proper ⟨done, enclosing, phase⟩) (hp : phase'.Proper)
    (hs : phase'.spelled = phase.spelled ++ [t]) :
    Extends ⟨done, enclosing, phase⟩ t ⟨done, enclosing, phase'⟩ := by
  refine ⟨⟨h.done, h.enclosing, hp⟩, ?_⟩
  show spelledEnclosing enclosing ++ Stmt.tokensBlock done.reverse ++ phase'.spelled = _
  rw [hs, ← List.append_assoc]
  rfl

theorem extends_add {phase : Phase} {t : Token} {stmt : Stmt}
    (h : State.Proper ⟨done, enclosing, phase⟩) (hwf : stmt.WellFormed)
    (hs : stmt.tokens = phase.spelled ++ [t]) :
    Extends ⟨done, enclosing, phase⟩ t ⟨stmt :: done, enclosing, .statement⟩ := by
  refine ⟨⟨?_, h.enclosing, trivial⟩, ?_⟩
  · show Stmt.WellFormedBlock (stmt :: done).reverse
    rw [List.reverse_cons, Stmt.wellFormedBlock_append, Stmt.wellFormedBlock_singleton]
    exact ⟨h.done, hwf⟩
  · show spelledEnclosing enclosing ++ Stmt.tokensBlock (stmt :: done).reverse ++ [] = _
    rw [List.reverse_cons, Stmt.tokensBlock_append, Stmt.tokensBlock_singleton, hs,
      List.append_nil, ← List.append_assoc, ← List.append_assoc]
    rfl

/-- a conditional that turns out to have no second block is a finished statement -/
theorem proper_settled {s : State} (h : s.Proper) : s.settled.Proper := by
  obtain ⟨done, enclosing, phase⟩ := s
  cases phase with
  | afterIf condition body =>
    refine ⟨?_, h.enclosing, trivial⟩
    show Stmt.WellFormedBlock (Stmt.ite condition body none :: done).reverse
    rw [List.reverse_cons, Stmt.wellFormedBlock_append, Stmt.wellFormedBlock_singleton]
    exact ⟨h.done, h.phase⟩
  | _ => exact h

theorem spelled_settled (s : State) : s.settled.spelled = s.spelled := by
  obtain ⟨done, enclosing, phase⟩ := s
  cases phase with
  | afterIf condition body =>
    show spelledEnclosing enclosing ++
      Stmt.tokensBlock (Stmt.ite condition body none :: done).reverse ++ [] = _
    rw [List.reverse_cons, Stmt.tokensBlock_append, Stmt.tokensBlock_singleton, List.append_nil,
      ← List.append_assoc]
    rfl
  | _ => rfl

theorem tokens_close (opener : Opener) (body : Block) :
    (opener.close body).tokens =
      opener.lead ++ .mark .leftBrace :: Stmt.tokensBlock body ++ [.mark .rightBrace] := by
  cases opener <;> simp [Opener.close, Opener.lead, Stmt.tokens]

theorem wellFormed_close {opener : Opener} {body : Block} (ho : opener.Proper)
    (hb : Stmt.WellFormedBlock body) : (opener.close body).WellFormed := by
  cases opener with
  | bare => exact hb
  | ifBody condition => exact ⟨ho, hb⟩
  | elseBody condition first => exact ⟨ho.1, ho.2, hb⟩
  | whileBody condition => exact ⟨ho, hb⟩

theorem extends_closed {opener : Opener} {before : List Stmt}
    (h : State.Proper ⟨done, (opener, before) :: enclosing, .statement⟩) :
    Extends ⟨done, (opener, before) :: enclosing, .statement⟩ (.mark .rightBrace)
      (opener.closed done.reverse before enclosing) := by
  obtain ⟨hopener, hbefore, houter⟩ := h.enclosing
  have hwf := wellFormed_close hopener h.done
  -- a closed block is spelled alike whether or not an `else` may follow it
  have hsettled : Extends ⟨done, (opener, before) :: enclosing, .statement⟩ (.mark .rightBrace)
      ⟨opener.close done.reverse :: before, enclosing, .statement⟩ := by
    refine ⟨⟨?_, houter, trivial⟩, ?_⟩
    · show Stmt.WellFormedBlock (opener.close done.reverse :: before).reverse
      rw [List.reverse_cons, Stmt.wellFormedBlock_append, Stmt.wellFormedBlock_singleton]
      exact ⟨hbefore, hwf⟩
    · show spelledEnclosing enclosing ++
        Stmt.tokensBlock (opener.close done.reverse :: before).reverse ++ [] = _
      rw [List.reverse_cons, Stmt.tokensBlock_append, Stmt.tokensBlock_singleton, tokens_close]
      simp [State.spelled, spelledEnclosing, Phase.spelled]
  cases opener with
  | ifBody condition =>
    refine ⟨⟨hbefore, houter, hopener, h.done⟩, ?_⟩
    rw [← hsettled.2]
    exact (spelled_settled (Opener.closed (.ifBody condition) done.reverse before enclosing)).symm
  | bare => exact hsettled
  | elseBody condition first => exact hsettled
  | whileBody condition => exact hsettled

/-! ### Single tokens -/

theorem stepStatement_spelled {s s' : State} {t : Token} (h : s.Proper)
    (hp : s.phase = .statement) (hstep : stepStatement s t = .ok s') : Extends s t s' := by
  obtain ⟨done, enclosing, phase⟩ := s
  obtain rfl : phase = .statement := hp
  unfold stepStatement at hstep
  split at hstep
  · obtain rfl := Except.ok.inj hstep
    exact extends_phase h trivial rfl
  · obtain rfl := Except.ok.inj hstep
    exact extends_phase h rfl rfl
  · obtain rfl := Except.ok.inj hstep
    exact extends_phase h rfl rfl
  · obtain rfl := Except.ok.inj hstep
    exact extends_phase h rfl rfl
  · obtain rfl := Except.ok.inj hstep
    refine ⟨⟨trivial, ⟨trivial, h.done, h.enclosing⟩, trivial⟩, ?_⟩
    simp [State.spelled, spelledEnclosing, Phase.spelled, Opener.lead, Stmt.tokensBlock]
  · -- a closing brace, for each kind of block that it may close
    match enclosing, hstep with
    | [], hstep => cases hstep
    | (opener, before) :: outer, hstep =>
      have hclosed : s' = opener.closed done.reverse before outer := by
        cases opener <;> exact (Except.ok.inj hstep).symm
      rw [hclosed]
      exact extends_closed h
  · cases hstep

theorem stepOperand_spelled {slot : Slot} {frames : List Frame} {t : Token} {s' : State}
    (h : State.Proper ⟨done, enclosing, .operand slot frames⟩)
    (hstep : stepOperand ⟨done, enclosing, .operand slot frames⟩ slot frames t = .ok s') :
    Extends ⟨done, enclosing, .operand slot frames⟩ t s' := by
  have hframes : ProperFrames frames := h.phase
  have h8 := admits_of_seven_le (show 7 ≤ 8 by omega) frames
  match t, hstep with
  | .int n, hstep =>
    obtain rfl := Except.ok.inj hstep
    exact extends_phase h ⟨⟨hframes, trivial, h8⟩, rfl⟩ rfl
  | .float x, hstep =>
    obtain rfl := Except.ok.inj hstep
    exact extends_phase h ⟨⟨hframes, trivial, h8⟩, rfl⟩ rfl
  | .text s, hstep =>
    obtain rfl := Except.ok.inj hstep
    exact extends_phase h ⟨⟨hframes, trivial, h8⟩, rfl⟩ rfl
  | .ident name, hstep =>
    obtain rfl := Except.ok.inj hstep
    exact extends_phase h ⟨⟨hframes, trivial, h8⟩, rfl⟩ rfl
  | .mark .leftParen, hstep =>
    obtain rfl := Except.ok.inj hstep
    exact extends_phase h hframes (by simp [Phase.spelled, spelledFrames])
  | .mark .bang, hstep =>
    obtain rfl := Except.ok.inj hstep
    exact extends_phase h hframes (by simp [Phase.spelled, spelledFrames])
  | .keyword .round, hstep =>
    obtain rfl := Except.ok.inj hstep
    exact extends_phase h hframes (by simp [Phase.spelled])

theorem settled_operator {slot : Slot} {frames : List Frame} {e : Expr}
    (h : State.Proper ⟨done, enclosing, .operator slot frames e⟩) {level : Nat} (hl : level ≤ 6) :
    Settled level frames e (settle level frames e) := by
  obtain ⟨hoperand, h8⟩ := h.phase
  exact settled_settle hl hoperand (by omega)

theorem fill_spelled {slot : Slot} {frames : List Frame} {e x : Expr}
    (h : State.Proper ⟨done, enclosing, .operator slot frames e⟩) (hx : x.WellFormed)
    (hs : x.tokens = spelledFrames frames ++ e.tokens) :
    Extends ⟨done, enclosing, .operator slot frames e⟩ slot.closer
      (slot.fill ⟨done, enclosing, .operator slot frames e⟩ x) := by
  cases slot with
  | assign name =>
    exact extends_add h hx (by simp [Stmt.tokens, Phase.spelled, Slot.lead, Slot.opening,
      Slot.closer, hs])
  | print =>
    exact extends_phase h hx (by simp [Phase.spelled, Slot.lead, Slot.opening, Slot.closer, hs])
  | ifCondition =>
    exact extends_phase h hx (by simp [Phase.spelled, Slot.lead, Slot.opening, Slot.closer,
      Opener.lead, hs])
  | whileCondition =>
    exact extends_phase h hx (by simp [Phase.spelled, Slot.lead, Slot.opening, Slot.closer,
      Opener.lead, hs])

theorem close_spelled {slot : Slot} {frames : List Frame} {e : Expr}
    (h : State.Proper ⟨done, enclosing, .operator slot frames e⟩) :
    Extends ⟨done, enclosing, .operator slot frames e⟩ (closer slot (settle 0 frames e).1)
      (close ⟨done, enclosing, .operator slot frames e⟩ slot (settle 0 frames e).1
        (settle 0 frames e).2) := by
  have hs := settled_operator h (Nat.zero_le 6)
  obtain ⟨outer, x, hsettle⟩ : ∃ outer x, settle 0 frames e = (outer, x) := ⟨_, _, rfl⟩
  rw [hsettle] at hs ⊢
  obtain ⟨⟨hproper, hwf, -⟩, -, hadmits, hspelled⟩ := hs
  match outer, hproper, hadmits, hspelled with
  | [], _, _, hspelled => exact fill_spelled h hwf hspelled
  | .not :: _, _, hadmits, _ => exact absurd hadmits (by simp [Admits])
  | .binary _ _ :: _, _, hadmits, _ => exact absurd hadmits (by simp [Admits])
  | .group :: rest, hproper, _, hspelled =>
    refine extends_phase h ⟨⟨hproper, hwf, admits_of_seven_le (show 7 ≤ 8 by omega) rest⟩, rfl⟩ ?_
    simp only [Phase.spelled, List.append_assoc, List.cons_append, ← hspelled, closer]
    simp [spelledFrames, Expr.tokens]
  | .round :: rest, hproper, _, hspelled =>
    refine extends_phase h ⟨⟨hproper, hwf, admits_of_seven_le (show 7 ≤ 8 by omega) rest⟩, rfl⟩ ?_
    simp only [Phase.spelled, List.append_assoc, List.cons_append, ← hspelled, closer]
    simp [spelledFrames, Expr.tokens]

theorem stepOperator_spelled {slot : Slot} {frames : List Frame} {e : Expr} {t : Token}
    {s' : State} (h : State.Proper ⟨done, enclosing, .operator slot frames e⟩)
    (hstep : stepOperator ⟨done, enclosing, .operator slot frames e⟩ slot frames e t = .ok s') :
    Extends ⟨done, enclosing, .operator slot frames e⟩ t s' := by
  unfold stepOperator at hstep
  split at hstep
  · next op =>
    have hs := settled_operator h op.binding_le_six
    rw [op.level_eq_binding] at hstep
    obtain rfl := Except.ok.inj hstep
    refine extends_phase h ⟨hs.proper.wellFormed, hs.level_le, hs.admits, hs.proper.proper⟩ ?_
    simp only [Phase.spelled, spelledFrames, hs.spelled, List.append_assoc, List.cons_append]
  · dsimp only at hstep
    split at hstep
    · next ht =>
      obtain rfl := Except.ok.inj hstep
      rw [ht]
      exact close_spelled h
    · cases hstep

theorem demand_ok {wanted t : Token} {next s' : State} (h : demand wanted t next = .ok s') :
    t = wanted ∧ s' = next := by
  unfold demand at h
  split at h
  · next ht => exact ⟨ht, (Except.ok.inj h).symm⟩
  · cases h

theorem step_spelled {s s' : State} {t : Token} (h : s.Proper) (hstep : step s t = .ok s') :
    Extends s t s' := by
  obtain ⟨done, enclosing, phase⟩ := s
  cases phase with
  | statement => exact stepStatement_spelled h rfl hstep
  | afterIf condition body =>
    by_cases ht : t = .keyword .otherwise
    · subst ht
      obtain rfl := Except.ok.inj hstep
      exact extends_phase h h.phase rfl
    · have hsettled := proper_settled h
      have hat : State.AtStatement ⟨done, enclosing, .afterIf condition body⟩ := rfl
      rw [step_settled hat ht] at hstep
      have he := stepStatement_spelled hsettled rfl hstep
      exact ⟨he.1, he.2.trans (by rw [spelled_settled])⟩
  | assignMark name =>
    obtain ⟨rfl, rfl⟩ := demand_ok hstep
    exact extends_phase h trivial rfl
  | openParen slot =>
    obtain ⟨rfl, rfl⟩ := demand_ok hstep
    have hslot : slot.opening = .mark .leftParen := h.phase
    exact extends_phase h trivial (by simp [Phase.spelled, hslot, spelledFrames])
  | openRound slot frames =>
    obtain ⟨rfl, rfl⟩ := demand_ok hstep
    exact extends_phase h h.phase (by simp [Phase.spelled, spelledFrames])
  | operand slot frames => exact stepOperand_spelled h hstep
  | operator slot frames e => exact stepOperator_spelled h hstep
  | printEnd value =>
    obtain ⟨rfl, rfl⟩ := demand_ok hstep
    exact extends_add h h.phase (by simp [Stmt.tokens, Phase.spelled])
  | openBrace opener =>
    obtain ⟨rfl, rfl⟩ := demand_ok hstep
    refine ⟨⟨trivial, ⟨h.phase, h.done, h.enclosing⟩, trivial⟩, ?_⟩
    simp [State.spelled, spelledEnclosing, Phase.spelled, Stmt.tokensBlock]

/-! ### Whole lists -/

theorem steps_spelled {s s' : State} {ts : List Token} (h : s.Proper)
    (hsteps : steps s ts = .ok s') : s'.Proper ∧ s'.spelled = s.spelled ++ ts := by
  induction ts generalizing s with
  | nil =>
    obtain rfl : s = s' := Except.ok.inj hsteps
    exact ⟨h, (List.append_nil _).symm⟩
  | cons t ts ih =>
    rw [steps] at hsteps
    cases hs : step s t with
    | error expected => rw [hs] at hsteps; cases hsteps
    | ok s₁ =>
      rw [hs] at hsteps
      obtain ⟨hp, hspelled⟩ := step_spelled h hs
      obtain ⟨hp', hspelled'⟩ := ih hp hsteps
      refine ⟨hp', ?_⟩
      rw [hspelled', hspelled, List.append_assoc]
      rfl

theorem finishStatement_spelled {s : State} {p : Program} (h : s.Proper)
    (hphase : s.phase = .statement) (hf : finishStatement s = .ok p) :
    p.WellFormed ∧ p.tokens = s.spelled := by
  obtain ⟨done, enclosing, phase⟩ := s
  obtain rfl : phase = .statement := hphase
  match enclosing, hf with
  | [], hf =>
    obtain rfl := Except.ok.inj hf
    refine ⟨h.done, ?_⟩
    show Stmt.tokensBlock done.reverse = [] ++ Stmt.tokensBlock done.reverse ++ []
    rw [List.nil_append, List.append_nil]
  | _ :: _, hf => cases hf

theorem finish_spelled {s : State} {p : Program} (h : s.Proper) (hf : finish s = .ok p) :
    p.WellFormed ∧ p.tokens = s.spelled := by
  have hat : s.AtStatement := by
    obtain ⟨done, enclosing, phase⟩ := s
    cases phase with
    | statement => rfl
    | afterIf condition body => rfl
    | _ => cases hf
  rw [finish_settled hat] at hf
  rw [← spelled_settled s]
  exact finishStatement_spelled (proper_settled h) hat hf

end TinyScript.Parse
