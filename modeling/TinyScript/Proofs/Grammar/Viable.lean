import TinyScript.Proofs.Grammar.Completeness

/-!
# The first token that does not fit

A reader that goes from token to token has no state in which it is lost: whatever was read without an
error is the start of some program.  So the token at which it stops is the first one with which no
program goes on.

* `Parse.Completable`      some tokens lead from a state to the end of a program
* `Parse.completable`      every state is completable
* `Parse.viable_some_iff`  the starts of programs are what is read without an error
* `reports_first_impossible_token`   where the reader stops, and what it says
-/

namespace TinyScript

/-- what the reader is given: tokens and, behind them, the end -/
def inputOf (tokens : List Token) : List (Option Token) := tokens.map some ++ [none]

/-- some list of tokens that is read as a program starts like this -/
def Viable (seen : List (Option Token)) : Prop :=
  ∃ (tokens : List Located) (endLine : Nat) (p : Program),
    Program.ofTokens tokens endLine = .ok p ∧ seen <+: inputOf (tokens.map Located.token)

/-- what a text holds for the reader, each with its line, if the text ends on `endLine` -/
def Scan.input (scan : Scan) (endLine : Nat) : List (Option Token × Nat) :=
  scan.tokens.map (fun t => (some t.token, t.line)) ++ [(none, endLine)]

namespace Parse

/-! ### Every state can be completed -/

def Completable (s : State) : Prop :=
  ∃ rest s' p, steps s rest = .ok s' ∧ finish s' = .ok p

theorem Completable.of_step {s s' : State} {t : Token} (h : step s t = .ok s')
    (hc : Completable s') : Completable s := by
  obtain ⟨rest, last, p, hsteps, hfinish⟩ := hc
  exact ⟨t :: rest, last, p, (steps_cons_of_ok h rest).trans hsteps, hfinish⟩

/-- Closing the open blocks, from the innermost on, ends the program. -/
theorem completable_statement (enclosing : List (Opener × List Stmt)) :
    ∀ s : State, s.AtStatement → s.settled.enclosing = enclosing → Completable s := by
  induction enclosing with
  | nil =>
    intro s hs he
    refine ⟨[], s, s.settled.done.reverse, rfl, ?_⟩
    rw [finish_settled hs, finishStatement, he]
  | cons open_ outer ih =>
    obtain ⟨opener, before⟩ := open_
    intro s hs he
    have hstep : step s (.mark .rightBrace) =
        .ok (opener.closed s.settled.done.reverse before outer) := by
      rw [step_settled hs (by simp), stepStatement, he]
      cases opener <;> rfl
    refine .of_step hstep (ih _ (atStatement_closed _ _ _ _) ?_)
    rw [settled_closed]

theorem completable_openBrace (opener : Opener) (done : List Stmt)
    (enclosing : List (Opener × List Stmt)) : Completable ⟨done, enclosing, .openBrace opener⟩ := by
  have hstep : step ⟨done, enclosing, .openBrace opener⟩ (.mark .leftBrace) =
      .ok ⟨[], (opener, done) :: enclosing, .statement⟩ := rfl
  exact .of_step hstep (completable_statement _ _ rfl rfl)

theorem completable_printEnd (value : Expr) (done : List Stmt)
    (enclosing : List (Opener × List Stmt)) : Completable ⟨done, enclosing, .printEnd value⟩ := by
  have hstep : step ⟨done, enclosing, .printEnd value⟩ (.mark .semicolon) =
      .ok ⟨.print value :: done, enclosing, .statement⟩ := rfl
  exact .of_step hstep (completable_statement _ _ rfl rfl)

variable {done : List Stmt} {enclosing : List (Opener × List Stmt)} {slot : Slot}

theorem completable_fill (phase : Phase) (e : Expr) :
    Completable (slot.fill ⟨done, enclosing, phase⟩ e) := by
  cases slot with
  | assign name => exact completable_statement _ _ rfl rfl
  | print => exact completable_printEnd e done enclosing
  | ifCondition => exact completable_openBrace (.ifBody e) done enclosing
  | whileCondition => exact completable_openBrace (.whileBody e) done enclosing

theorem length_settle_le (level : Nat) (frames : List Frame) (e : Expr) :
    (settle level frames e).1.length ≤ frames.length := by
  induction frames generalizing e with
  | nil => exact Nat.le_refl _
  | cons frame frames ih =>
    cases frame with
    | not => exact Nat.le_succ_of_le (ih _)
    | binary op left =>
      rw [settle]
      split
      · exact Nat.le_succ_of_le (ih _)
      · exact Nat.le_refl _
    | group => exact Nat.le_refl _
    | round => exact Nat.le_refl _

theorem step_closer (frames : List Frame) (e : Expr) :
    step ⟨done, enclosing, .operator slot frames e⟩ (closer slot (settle 0 frames e).1) =
      .ok (close ⟨done, enclosing, .operator slot frames e⟩ slot (settle 0 frames e).1
        (settle 0 frames e).2) := by
  -- what closes an expression is a mark, never an operator
  obtain ⟨m, hm⟩ : ∃ m, closer slot (settle 0 frames e).1 = .mark m := by
    cases (settle 0 frames e).1 with
    | nil => cases slot <;> exact ⟨_, rfl⟩
    | cons _ _ => exact ⟨_, rfl⟩
  show stepOperator _ slot frames e _ = _
  rw [hm]
  simp only [stepOperator, hm, if_true]

/-- Closing the parentheses, from the innermost on, completes the expression. -/
theorem completable_operator (n : Nat) : ∀ (frames : List Frame) (e : Expr), frames.length ≤ n →
    Completable ⟨done, enclosing, .operator slot frames e⟩ := by
  induction n with
  | zero =>
    intro frames e hn
    obtain rfl : frames = [] := List.eq_nil_of_length_eq_zero (Nat.le_zero.mp hn)
    exact .of_step (step_closer [] e) (completable_fill _ _)
  | succ n ih =>
    intro frames e hn
    refine .of_step (step_closer frames e) ?_
    have hlength := Nat.le_trans (length_settle_le 0 frames e) hn
    generalize (settle 0 frames e).2 = x
    cases hs : (settle 0 frames e).1 with
    | nil => exact completable_fill _ _
    | cons frame rest =>
      rw [hs, List.length_cons] at hlength
      have hrest : rest.length ≤ n := Nat.le_of_succ_le_succ hlength
      cases frame with
      | group => exact ih rest _ hrest
      | round => exact ih rest _ hrest
      | not => exact completable_fill _ _
      | binary op left => exact completable_fill _ _

theorem completable_operand (slot : Slot) (frames : List Frame) :
    Completable ⟨done, enclosing, .operand slot frames⟩ := by
  have hstep : step ⟨done, enclosing, .operand slot frames⟩ (.int 0) =
      .ok ⟨done, enclosing, .operator slot frames (.int 0)⟩ := rfl
  exact .of_step hstep (completable_operator _ frames _ (Nat.le_refl _))

/-- **No state is a dead end.** -/
theorem completable (s : State) : Completable s := by
  obtain ⟨done, enclosing, phase⟩ := s
  cases phase with
  | statement => exact completable_statement _ _ rfl rfl
  | afterIf condition body => exact completable_statement _ _ rfl rfl
  | assignMark name =>
    have hstep : step ⟨done, enclosing, .assignMark name⟩ (.mark .assign) =
        .ok ⟨done, enclosing, .operand (.assign name) []⟩ := rfl
    exact .of_step hstep (completable_operand _ _)
  | openParen slot =>
    have hstep : step ⟨done, enclosing, .openParen slot⟩ (.mark .leftParen) =
        .ok ⟨done, enclosing, .operand slot []⟩ := rfl
    exact .of_step hstep (completable_operand _ _)
  | openRound slot frames =>
    have hstep : step ⟨done, enclosing, .openRound slot frames⟩ (.mark .leftParen) =
        .ok ⟨done, enclosing, .operand slot (.round :: frames)⟩ := rfl
    exact .of_step hstep (completable_operand _ _)
  | operand slot frames => exact completable_operand slot frames
  | operator slot frames e => exact completable_operator _ frames e (Nat.le_refl _)
  | printEnd value => exact completable_printEnd value done enclosing
  | openBrace opener => exact completable_openBrace opener done enclosing

/-! ### The starts of programs -/

theorem steps_prefix {s s' : State} {as bs : List Token} (h : steps s (as ++ bs) = .ok s') :
    ∃ mid, steps s as = .ok mid := by
  induction as generalizing s with
  | nil => exact ⟨s, rfl⟩
  | cons t ts ih =>
    rw [List.cons_append, steps] at h
    rw [steps]
    cases hs : step s t with
    | ok s₁ =>
      rw [hs] at h
      exact ih h
    | error expected =>
      rw [hs] at h
      cases h

theorem none_not_mem_map_some (ts : List Token) : none ∉ ts.map some := by simp

theorem viable_some_iff {ts : List Token} :
    Viable (ts.map some) ↔ ∃ s, steps .start ts = .ok s := by
  constructor
  · rintro ⟨tokens, endLine, p, hp, hprefix⟩
    obtain ⟨last, hsteps, -⟩ := run_eq_ok_iff.mp hp
    have hts : ts <+: tokens.map Located.token := by
      rcases List.prefix_concat_iff.mp hprefix with he | hin
      · exact absurd (he ▸ List.mem_concat_self) (none_not_mem_map_some ts)
      · exact (List.prefix_map_iff_of_injective fun _ _ => Option.some.inj).mp hin
    obtain ⟨bs, hbs⟩ := hts
    rw [← hbs] at hsteps
    exact steps_prefix hsteps
  · rintro ⟨s, hs⟩
    obtain ⟨rest, last, p, hsteps, hfinish⟩ := completable s
    refine ⟨(ts ++ rest).map (⟨·, 0⟩), 0, p, ?_, rest.map some ++ [none], ?_⟩
    · refine run_eq_ok_iff.mpr ⟨last, ?_, hfinish⟩
      rw [List.map_map]
      exact (congrArg _ (List.map_id _)).trans ((steps_append hs rest).trans hsteps)
    · simp [inputOf, List.map_map, Function.comp_def]

/-- an input that is viable as a whole is a program -/
theorem finish_of_viable_inputOf {ts : List Token} (h : Viable (inputOf ts)) :
    ∃ s p, steps .start ts = .ok s ∧ finish s = .ok p := by
  obtain ⟨tokens, endLine, p, hp, hprefix⟩ := h
  obtain ⟨last, hsteps, hfinish⟩ := run_eq_ok_iff.mp hp
  have hts : ts = tokens.map Located.token := by
    rcases List.prefix_concat_iff.mp hprefix with he | hin
    · exact (List.map_inj_right fun _ _ => Option.some.inj).mp (List.append_cancel_right he)
    · exact absurd (hin.subset List.mem_concat_self) (none_not_mem_map_some _)
  exact ⟨last, p, hts ▸ hsteps, hfinish⟩

/-! ### Where the reader stops -/

/-- the reader stops at a token, or at the end, that its state does not allow -/
theorem run_eq_error {endLine : Nat} {s : State} {ts : List Located} {e : SourceError}
    (h : run endLine s ts = .error e) :
    ∃ k s' expected, steps s ((ts.take k).map Located.token) = .ok s' ∧
      ((∃ t, ts[k]? = some t ∧ step s' t.token = .error expected ∧
          e = ⟨t.line, .unexpectedToken expected (some t.token)⟩) ∨
        (k = ts.length ∧ finish s' = .error expected ∧
          e = ⟨endLine, .unexpectedToken expected none⟩)) := by
  induction ts generalizing s with
  | nil =>
    rw [run] at h
    cases hf : finish s with
    | ok p => rw [hf] at h; cases h
    | error expected =>
      rw [hf] at h
      exact ⟨0, s, expected, rfl, .inr ⟨rfl, hf, (Except.error.inj h).symm⟩⟩
  | cons t ts ih =>
    rw [run] at h
    cases hs : step s t.token with
    | ok s₁ =>
      rw [hs] at h
      obtain ⟨k, s', expected, hsteps, hwhere⟩ := ih h
      refine ⟨k + 1, s', expected, (steps_cons_of_ok hs _).trans hsteps, ?_⟩
      exact hwhere.imp id (And.imp_left (congrArg (· + 1)))
    | error expected =>
      rw [hs] at h
      exact ⟨0, s, expected, rfl, .inl ⟨t, rfl, hs, (Except.error.inj h).symm⟩⟩

theorem not_viable_of_step {ts : List Token} {s : State} {t : Token} {expected : Expected}
    (hs : steps .start ts = .ok s) (ht : step s t = .error expected) :
    ¬ Viable ((ts ++ [t]).map some) := by
  intro hv
  obtain ⟨s', hs'⟩ := viable_some_iff.mp hv
  rw [steps_append hs, steps, ht] at hs'
  cases hs'

theorem not_viable_of_finish {ts : List Token} {s : State} {expected : Expected}
    (hs : steps .start ts = .ok s) (hf : finish s = .error expected) : ¬ Viable (inputOf ts) := by
  intro hv
  obtain ⟨s', p, hs', hp⟩ := finish_of_viable_inputOf hv
  obtain rfl := Except.ok.inj (hs.symm.trans hs')
  rw [hf] at hp
  cases hp

end Parse

theorem take_inputOf {ts : List Token} {k : Nat} (h : k ≤ ts.length) :
    (inputOf ts).take k = (ts.take k).map some := by
  rw [inputOf, List.take_append_of_le_length (by rwa [List.length_map]), List.map_take]

theorem Scan.map_fst_input (scan : Scan) (endLine : Nat) :
    (scan.input endLine).map Prod.fst = inputOf (scan.tokens.map Located.token) := by
  simp [Scan.input, inputOf, List.map_map, Function.comp_def]

open Parse in
/-- **The reader names the first token that does not fit.**  An error of the scan is the error of the
text.  Otherwise, if a text is not read as a program, the error names a place of the input: its line
and what was found are those of the token there (or of the end), some program starts with all that is
in front of it, and no program starts with that and the token itself. -/
theorem reports_first_impossible_token (source : String) :
    (∀ e, (scan source).stop = .error e → Program.ofSource source = .error e) ∧
    ∀ endLine e, (scan source).stop = .ok endLine → Program.ofSource source = .error e →
      ∃ k expected found, ((scan source).input endLine)[k]? = some (found, e.line) ∧
        e.cause = .unexpectedToken expected found ∧
        e.message = "line " ++ Decimal.integer e.line ++ ": " ++
          ("expected " ++ expected.shown ++ ", found " ++ found.elim Token.endShown Token.shown) ∧
        Viable ((((scan source).input endLine).map Prod.fst).take k) ∧
        ¬ Viable ((((scan source).input endLine).map Prod.fst).take (k + 1)) := by
  constructor
  · intro e he
    rw [Program.ofSource, he]
  · intro endLine e hstop he
    rw [Program.ofSource, hstop] at he
    obtain ⟨k, s, expected, hsteps, hwhere⟩ := run_eq_error he
    rw [Scan.map_fst_input]
    rw [List.map_take] at hsteps
    rcases hwhere with ⟨t, ht, hstep, rfl⟩ | ⟨rfl, hfinish, rfl⟩
    · have hk : k < ((scan source).tokens.map Located.token).length := by
        rw [List.length_map]
        exact (List.getElem?_eq_some_iff.mp ht).1
      refine ⟨k, expected, some t.token, ?_, rfl, rfl, ?_, ?_⟩
      · rw [Scan.input, List.getElem?_append_left (by simpa using hk), List.getElem?_map, ht]
        rfl
      · rw [take_inputOf (Nat.le_of_lt hk)]
        exact viable_some_iff.mpr ⟨s, hsteps⟩
      · rw [take_inputOf hk, List.take_add_one, List.getElem?_map, ht]
        exact not_viable_of_step hsteps hstep
    · have hall : ((scan source).tokens.map Located.token).take (scan source).tokens.length =
          (scan source).tokens.map Located.token := List.take_of_length_le (by simp)
      rw [hall] at hsteps
      refine ⟨(scan source).tokens.length, expected, none, ?_, rfl, rfl, ?_, ?_⟩
      · rw [Scan.input, List.getElem?_append_right (by simp)]
        simp
      · rw [take_inputOf (by simp), hall]
        exact viable_some_iff.mpr ⟨s, hsteps⟩
      · rw [List.take_of_length_le (by simp [inputOf])]
        exact not_viable_of_finish hsteps hfinish

/-- a condition whose parenthesis is not closed -/
def unclosed : String := "a = 1;\nif (a \x7b \x7d"

theorem reports_first_impossible_token_unclosed :
    Program.ofSource "if ; $" = .error ⟨1, .unexpectedChar '$'⟩ ∧
    ∃ k, ((scan unclosed).input 2)[k]? = some (some (.mark .leftBrace), 2) ∧
      Viable ((((scan unclosed).input 2).map Prod.fst).take k) ∧
      ¬ Viable ((((scan unclosed).input 2).map Prod.fst).take (k + 1)) := by
  refine ⟨(reports_first_impossible_token "if ; $").1 _ (by rfl), ?_⟩
  have herror : Program.ofSource unclosed = .error
      ⟨2, .unexpectedToken (.token (.mark .rightParen)) (some (.mark .leftBrace))⟩ := by
    rfl
  obtain ⟨k, expected, found, hk, hcause, -, hviable, hnot⟩ :=
    (reports_first_impossible_token unclosed).2 2 _ (by rfl) herror
  cases hcause
  exact ⟨k, hk, hviable, hnot⟩

end TinyScript
