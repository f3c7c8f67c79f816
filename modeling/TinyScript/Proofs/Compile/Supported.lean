import TinyScript.Proofs.Compile.Cases
import TinyScript.Proofs.Plan.Contents

/-!
# Which programs compile

The machine computes with 32-bit words, and a text is for it an address at which bytes are found.  So
a program compiles if it computes with integers only, and stores and prints texts only as a whole.
Nothing else ever goes wrong: what the plan of a program lacks, the program does not need.

* `Expr.Numeric`, `Stmt.Supported`   what may stand in an expression, and what a statement may do
* `Decides`                          an outcome with only one kind of failure, known beforehand
* `Plan.Covers`                      the plan has what a statement asks for
* `Plan.blockCode_decides`           under such a plan there is code exactly for what is supported
* `compiles_exactly_supported`       the same for whole programs and their own plans
-/

namespace TinyScript

/-! ## What is supported -/

/-- An expression that is computed in words: nowhere inside it is a double, a text, a rounding, or
one of the variables that are `textual`. -/
def Expr.Numeric (textual : String → Prop) : Expr → Prop
  | .int _ => True
  | .float _ | .text _ | .round _ => False
  | .var name => ¬ textual name
  | .group e | .not e => e.Numeric textual
  | .binary _ left right => left.Numeric textual ∧ right.Numeric textual

/-- an expression that is one of these variables, perhaps in parentheses -/
def Expr.Names (textual : String → Prop) : Expr → Prop
  | .var name => textual name
  | .group e => e.Names textual
  | _ => False

/-- what a statement itself may do, apart from the statements inside it -/
def Stmt.Supported (textual : String → Prop) : Stmt → Prop
  | .assign name value => value.text?.isSome ∨ ¬ textual name ∧ value.Numeric textual
  | .print value => value.text?.isSome ∨ value.Names textual ∨ value.Numeric textual
  | .ite condition _ _ | .while condition _ => condition.Numeric textual
  | .block _ => True

/-- Each statement of the program, at any depth, is supported, and a variable is textual if the
program somewhere assigns a text literal to it. -/
def Program.Supported (p : Program) : Prop :=
  ∀ s ∈ Stmt.partsBlock p, s.Supported p.AssignsText

section

variable {textual : String → Prop} [DecidablePred textual]

instance Expr.decidableNumeric : (e : Expr) → Decidable (e.Numeric textual)
  | .int _ => isTrue trivial
  | .float _ | .text _ | .round _ => isFalse id
  | .var name => inferInstanceAs (Decidable (¬ textual name))
  | .group e | .not e => e.decidableNumeric
  | .binary _ left right =>
    have := left.decidableNumeric
    have := right.decidableNumeric
    inferInstanceAs (Decidable (_ ∧ _))

instance Expr.decidableNames : (e : Expr) → Decidable (e.Names textual)
  | .var name => inferInstanceAs (Decidable (textual name))
  | .group e => e.decidableNames
  | .int _ | .float _ | .text _ | .round _ | .not _ | .binary .. => isFalse id

instance Stmt.decidableSupported : (s : Stmt) → Decidable (s.Supported textual)
  | .assign _ _ => inferInstanceAs (Decidable (_ ∨ ¬ _ ∧ _))
  | .print _ => inferInstanceAs (Decidable (_ ∨ _ ∨ _))
  | .ite condition _ _ | .while condition _ => condition.decidableNumeric
  | .block _ => isTrue trivial

end

instance (p : Program) : DecidablePred p.AssignsText :=
  fun _ => decidable_of_iff _ Plan.isTextual_plan_iff

instance (p : Program) : Decidable p.Supported :=
  inferInstanceAs (Decidable (∀ s ∈ Stmt.partsBlock p, s.Supported p.AssignsText))

/-! ## Outcomes -/

/-- There is a result if `accepted` holds, and otherwise a feature is found that is not supported. -/
inductive Decides {α : Type} (accepted : Prop) : Except Failure α → Prop
  | result (h : accepted) (a : α) : Decides accepted (.ok a)
  | unsupported (h : ¬ accepted) (feature : Feature) :
      Decides accepted (.error (.unsupportedFeature feature))

namespace Decides

variable {α β : Type} {accepted accepted' : Prop} {r : Except Failure α}

theorem congr (h : Decides accepted r) (hiff : accepted ↔ accepted') : Decides accepted' r :=
  propext hiff ▸ h

theorem bind {f : α → Except Failure β} (h : Decides accepted r)
    (hf : ∀ a, Decides accepted' (f a)) : Decides (accepted ∧ accepted') (r >>= f) := by
  cases h with
  | result h a => exact (hf a).congr (and_iff_right h).symm
  | unsupported h feature => exact .unsupported (fun hc => h hc.1) feature

/-- what is made of a result cannot fail -/
theorem map (h : Decides accepted r) (f : α → β) :
    Decides accepted (r >>= fun a => .ok (f a)) :=
  (h.bind fun a => .result trivial (f a)).congr (and_iff_left trivial)

theorem ok_iff (h : Decides accepted r) : (∃ a, r = .ok a) ↔ accepted := by
  cases h with
  | result h a => exact ⟨fun _ => h, fun _ => ⟨a, rfl⟩⟩
  | unsupported h feature => exact ⟨fun ⟨_, ha⟩ => (by cases ha), fun hc => absurd hc h⟩

theorem unsupported_iff (h : Decides accepted r) :
    (∃ feature, r = .error (.unsupportedFeature feature)) ↔ ¬ accepted := by
  cases h with
  | result h a => exact ⟨fun ⟨_, hf⟩ => (by cases hf), fun hc => absurd h hc⟩
  | unsupported h feature => exact ⟨fun _ => h, fun _ => ⟨feature, rfl⟩⟩

end Decides

namespace Plan

/-! ## Statements under a plan -/

/-- the variables that a plan takes for textual -/
def Textual (plan : Plan) (name : String) : Prop := plan.isTextual name = true

/-- a plan that has a word for each variable of a statement, and its text -/
structure Covers (plan : Plan) (s : Stmt) : Prop where
  names : ∀ x ∈ s.names, x ∈ plan.names
  text : ∀ site text, s.text? = some (site, text) → plan.Keeps site text

variable {plan : Plan}

theorem slot_of_mem {name : String} (h : name ∈ plan.names) :
    plan.slot name = .ok (slotLabel name) := if_pos (Storage.mem_names.mp h)

theorem labelFor_of_keeps {name text : String} (h : plan.Keeps (.assigned name) text) :
    ∃ label, plan.labelFor name text = .ok label := by
  obtain ⟨e, he⟩ := Option.isSome_iff_exists.mp (Pool.isSome_entry?.trans h)
  exact ⟨e.label, by rw [labelFor, entryFor?, he]⟩

theorem names_iff_textVariable? (plan : Plan) (e : Expr) :
    e.Names plan.Textual ↔ (plan.textVariable? e).isSome := by
  induction e with
  | var name =>
    by_cases ht : plan.isTextual name = true
    · simp [Expr.Names, Textual, textVariable?, Expr.ungrouped, ht]
    · simp [Expr.Names, Textual, textVariable?, Expr.ungrouped, ht]
  | group e ih => exact ih
  | _ => exact ⟨False.elim, fun h => by cases h⟩

theorem mem_names_of_textVariable? {e : Expr} {name : String}
    (h : plan.textVariable? e = some name) : name ∈ e.names := by
  have hvar := (textVariable?_eq_some h).1
  induction e with
  | var x => exact Expr.var.inj hvar ▸ List.mem_singleton_self x
  | group e ih => exact ih h hvar
  | _ => cases hvar

theorem valueCode_decides {e : Expr} (h : ∀ x ∈ e.names, x ∈ plan.names) :
    Decides (e.Numeric plan.Textual) (plan.valueCode e) := by
  induction e with
  | int n => exact .result trivial _
  | float x => exact .unsupported id _
  | text s => exact .unsupported id _
  | var name =>
    rw [valueCode, slot_of_mem (h name (List.mem_singleton_self name))]
    split
    · next ht => exact .unsupported (fun hn => hn ht) _
    · next ht => exact .result ht _
  | group e ih => exact ih h
  | binary op left right ihl ihr =>
    have hl := ihl fun x hx => h x (List.mem_append_left _ hx)
    have hr := ihr fun x hx => h x (List.mem_append_right _ hx)
    exact hl.bind fun first => hr.map _
  | not e ih => exact (ih h).map _
  | round e => exact .unsupported id _

theorem assignCode_decides {name : String} {value : Expr} (h : plan.Covers (.assign name value)) :
    Decides ((Stmt.assign name value).Supported plan.Textual) (plan.assignCode name value) := by
  have hname : name ∈ plan.names := h.names name List.mem_cons_self
  have hvalue : ∀ x ∈ value.names, x ∈ plan.names :=
    fun x hx => h.names x (List.mem_cons_of_mem _ hx)
  rw [assignCode, slot_of_mem hname]
  rw [value.literal?_eq_text?]
  cases hv : value.text? with
  | some text =>
    have htext : (Stmt.assign name value).text? = some (.assigned name, text) := by
      rw [Stmt.text?, hv]
      rfl
    obtain ⟨label, hlabel⟩ := labelFor_of_keeps (h.text _ _ htext)
    show Decides _ (plan.labelFor name text >>= _)
    rw [hlabel]
    exact .result (.inl (by rw [hv]; rfl)) _
  | none =>
    have hiff : (Stmt.assign name value).Supported plan.Textual ↔
        ¬ plan.Textual name ∧ value.Numeric plan.Textual := or_iff_right (by simp [hv])
    show Decides _ (ite _ _ _)
    split
    · next ht => exact .unsupported (fun hs => (hiff.mp hs).1 ht) _
    · next ht =>
      exact ((valueCode_decides hvalue).map _).congr (hiff.trans (and_iff_right ht)).symm

theorem printCode_decides {value : Expr} (n : Nat) (h : plan.Covers (.print value)) :
    Decides ((Stmt.print value).Supported plan.Textual) (plan.printCode n value) := by
  have hnames := plan.names_iff_textVariable? value
  unfold printCode
  rw [value.literal?_eq_text?]
  split
  · next text hv => exact .result (.inl (by rw [hv]; rfl)) _
  · next name hv ht =>
    rw [slot_of_mem (h.names name (mem_names_of_textVariable? ht))]
    exact .result (.inr (.inl (hnames.mpr (by rw [ht]; rfl)))) _
  · next hv ht =>
    have hiff : (Stmt.print value).Supported plan.Textual ↔ value.Numeric plan.Textual := by
      rw [ht] at hnames
      exact (or_iff_right (by simp [hv])).trans (or_iff_right (by simpa using hnames))
    exact ((valueCode_decides h.names).map _).congr hiff.symm

mutual

/-- There is code for a statement exactly if all statements inside it are supported. -/
theorem stmtCode_decides (n : Nat) : (s : Stmt) → (∀ t ∈ s.parts, plan.Covers t) →
    Decides (∀ t ∈ s.parts, t.Supported plan.Textual) (plan.stmtCode n s)
  | .assign name value => fun h => by
    rw [Stmt.parts] at h ⊢
    exact (assignCode_decides (List.forall_mem_singleton.mp h)).congr
      List.forall_mem_singleton.symm
  | .print value => fun h => by
    rw [Stmt.parts] at h ⊢
    exact ((printCode_decides n (List.forall_mem_singleton.mp h)).map _).congr
      List.forall_mem_singleton.symm
  | .ite condition body none => fun h => by
    rw [Stmt.parts, List.forall_mem_cons] at h ⊢
    exact (valueCode_decides h.1.names).bind fun test => (blockCode_decides _ body h.2).map _
  | .ite condition body (some other) => fun h => by
    rw [Stmt.parts, List.forall_mem_cons, List.forall_mem_append] at h ⊢
    exact (valueCode_decides h.1.names).bind fun test =>
      (blockCode_decides _ body h.2.1).bind fun first => (blockCode_decides _ other h.2.2).map _
  | .while condition body => fun h => by
    rw [Stmt.parts, List.forall_mem_cons] at h ⊢
    exact (valueCode_decides h.1.names).bind fun test => (blockCode_decides _ body h.2).map _
  | .block body => fun h => by
    rw [Stmt.parts, List.forall_mem_cons] at h ⊢
    exact (blockCode_decides n body h.2).congr (and_iff_right trivial).symm

theorem blockCode_decides (n : Nat) : (b : Block) → (∀ t ∈ Stmt.partsBlock b, plan.Covers t) →
    Decides (∀ t ∈ Stmt.partsBlock b, t.Supported plan.Textual) (plan.blockCode n b)
  | [] => fun _ => .result (fun _ ht => nomatch ht) _
  | s :: ss => fun h => by
    rw [Stmt.partsBlock, List.forall_mem_append] at h ⊢
    exact (stmtCode_decides n s h.1).bind fun first => (blockCode_decides _ ss h.2).map _

end

/-! ## Programs under their own plans -/

/-- The plan of a program has what each of its statements asks for. -/
theorem covers_plan {p : Program} {s : Stmt} (h : s ∈ Stmt.partsBlock p) : p.plan.Covers s where
  names _ hx := mem_names_plan.mpr ⟨s, h, hx⟩
  text _ _ ht := keeps_plan.mpr ⟨s, h, ht⟩

theorem textual_plan (p : Program) : p.plan.Textual = p.AssignsText :=
  funext fun _ => propext isTextual_plan_iff

theorem compile_decides (p : Program) : Decides p.Supported p.compile := by
  have hblock := blockCode_decides p.plan.labels.allocated p fun s hs => covers_plan hs
  rw [textual_plan] at hblock
  exact hblock.map _

end Plan

/-- **What compiles.**  There is a listing for a program exactly if each of its statements is
supported, and for every other program the compiler finds a feature that is not supported.  In
particular the plan of a program never lacks a word or a text that the program needs. -/
theorem compiles_exactly_supported (p : Program) :
    ((∃ lines, p.compile = .ok lines) ↔ p.Supported) ∧
      ((∃ feature, p.compile = .error (.unsupportedFeature feature)) ↔ ¬ p.Supported) :=
  ⟨(Plan.compile_decides p).ok_iff, (Plan.compile_decides p).unsupported_iff⟩

/-- a text variable is printed in parentheses before it is assigned -/
example : Program.Supported
    [.while (.not (.var "n")) [.print (.group (.var "s")), .assign "s" (.group (.text "x"))]] := by
  decide

/-- a text variable is added to a number before it is assigned -/
example : ¬ Program.Supported
    [.print (.binary .add (.var "s") (.int 1)), .block [.assign "s" (.text "x")]] := by
  decide

end TinyScript
