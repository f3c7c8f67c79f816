import TinyScript.Program.Parse

/-!
# Reading several tokens

`Parse.steps` reads a list of tokens from a state, and `Parse.run` is that and the end of the input.
What may follow a finished conditional is what may follow any statement, but for an `else`
(`Parse.State.settled`).
-/

namespace TinyScript.Parse

def steps (s : State) : List Token → Except Expected State
  | [] => .ok s
  | t :: ts =>
    match step s t with
    | .ok s' => steps s' ts
    | .error expected => .error expected

theorem steps_cons_of_ok {s s' : State} {t : Token} (h : step s t = .ok s') (ts : List Token) :
    steps s (t :: ts) = steps s' ts := by
  simp only [steps, h]

theorem steps_append {s s' : State} {as : List Token} (h : steps s as = .ok s') (bs : List Token) :
    steps s (as ++ bs) = steps s' bs := by
  induction as generalizing s with
  | nil =>
    obtain rfl : s = s' := Except.ok.inj h
    rfl
  | cons t ts ih =>
    rw [List.cons_append, steps]
    rw [steps] at h
    cases hs : step s t with
    | ok s₁ =>
      rw [hs] at h
      exact ih h
    | error expected =>
      rw [hs] at h
      cases h

/-- a list of tokens is read to the end exactly if each of them is and the input may end there -/
theorem run_eq_ok_iff {endLine : Nat} {s : State} {ts : List Located} {p : Program} :
    run endLine s ts = .ok p ↔
      ∃ s', steps s (ts.map Located.token) = .ok s' ∧ finish s' = .ok p := by
  induction ts generalizing s with
  | nil =>
    show (finish s).mapError _ = .ok p ↔ _
    constructor
    · intro h
      refine ⟨s, rfl, ?_⟩
      cases hf : finish s with
      | ok q => rw [hf] at h; exact congrArg Except.ok (Except.ok.inj h)
      | error expected => rw [hf] at h; cases h
    · rintro ⟨s', hs, hf⟩
      obtain rfl : s = s' := Except.ok.inj hs
      rw [hf]
      rfl
  | cons t ts ih =>
    rw [run, List.map_cons, steps]
    cases hs : step s t.token with
    | ok s' => exact ih
    | error expected =>
      constructor
      · intro h; cases h
      · rintro ⟨s', h, -⟩; cases h

/-- the state in which a finished conditional is taken to have no second block -/
def State.settled (s : State) : State :=
  match s.phase with
  | .afterIf condition body => s.add (.ite condition body none)
  | _ => s

/-- a statement may come next -/
def State.AtStatement (s : State) : Prop := s.settled.phase = .statement

theorem step_settled {s : State} (h : s.AtStatement) {t : Token} (ht : t ≠ .keyword .otherwise) :
    step s t = stepStatement s.settled t := by
  obtain ⟨done, enclosing, phase⟩ := s
  cases phase with
  | statement => rfl
  | afterIf condition body => exact if_neg ht
  | _ => cases h

theorem finish_settled {s : State} (h : s.AtStatement) : finish s = finishStatement s.settled := by
  obtain ⟨done, enclosing, phase⟩ := s
  cases phase with
  | statement => rfl
  | afterIf condition body => rfl
  | _ => cases h

theorem atStatement_add (s : State) (stmt : Stmt) : (s.add stmt).AtStatement := rfl

theorem settled_add (s : State) (stmt : Stmt) : (s.add stmt).settled = s.add stmt := rfl

end TinyScript.Parse
