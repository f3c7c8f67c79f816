import Mathlib.Data.List.Induction
import TinyScript.Proofs.Plan.Parts
import TinyScript.Proofs.Plan.Storage

/-!
# What a plan contains

The plan of a program is made from its statements one after the other, at whatever depth they stand, and
each of them adds its names and at most one text.  A name or a text that is there already is not added
again, so what a plan holds are the first occurrences.

* `Program.names`, `Program.texts`   the names and texts of a program, as often as they occur
* `Plan.Exact`                       a plan holds the first occurrences of some names and texts
* `exact_plan`                       the plan of a program holds those of its names and texts
* `mem_names_plan`, `keeps_plan`, `isTextual_plan_iff`   what is in it
-/

namespace TinyScript

/-- the variables that a statement itself writes or reads, apart from the statements inside it -/
def Stmt.names : Stmt → List String
  | .assign name value => name :: value.names
  | .print value => value.names
  | .ite condition _ _ | .while condition _ => condition.names
  | .block _ => []

/-- the text that a statement itself assigns or prints, and where it does so -/
def Stmt.text? : Stmt → Option (Site × String)
  | .assign name value => value.text?.map fun text => (.assigned name, text)
  | .print value => value.text?.map fun text => (.printed, text)
  | .ite .. | .while .. | .block _ => none

def Program.names (p : Program) : List String := (Stmt.partsBlock p).flatMap Stmt.names

def Program.texts (p : Program) : List (Site × String) := (Stmt.partsBlock p).filterMap Stmt.text?

theorem Stmt.text?_eq_assigned {s : Stmt} {name text : String} :
    s.text? = some (.assigned name, text) ↔
      ∃ value, s = .assign name value ∧ value.text? = some text := by
  cases s <;> simp [text?, and_comm]

theorem Program.mem_texts_assigned {p : Program} {name text : String} :
    (.assigned name, text) ∈ p.texts ↔
      ∃ value, .assign name value ∈ Stmt.partsBlock p ∧ value.text? = some text := by
  rw [texts, List.mem_filterMap]
  constructor
  · rintro ⟨s, hs, ht⟩
    obtain ⟨value, rfl, hv⟩ := Stmt.text?_eq_assigned.mp ht
    exact ⟨value, hs, hv⟩
  · rintro ⟨value, hs, hv⟩
    exact ⟨_, hs, Stmt.text?_eq_assigned.mpr ⟨value, rfl, hv⟩⟩

/-! ### First occurrences -/

theorem getElem?_concat_eq_some {α : Type*} {xs : List α} {x y : α} {i : Nat} :
    (xs ++ [x])[i]? = some y ↔ xs[i]? = some y ∨ i = xs.length ∧ y = x := by
  grind

section

variable {α : Type*} [BEq α] [LawfulBEq α] {xs : List α} {x : α}

theorem eraseDups_concat_of_mem (h : x ∈ xs) : (xs ++ [x]).eraseDups = xs.eraseDups := by
  rw [List.eraseDups_append]
  simp [List.removeAll, h]

theorem eraseDups_concat_of_not_mem (h : x ∉ xs) : (xs ++ [x]).eraseDups = xs.eraseDups ++ [x] := by
  rw [List.eraseDups_append]
  simp [List.removeAll, h, List.eraseDups_cons]

end

/-- what a new variable makes of the first occurrences of some names -/
theorem Storage.names_insert {s : Storage} {names : List String} (h : s.names = names.eraseDups)
    (name : String) : (s.insert name).2.names = (names ++ [name]).eraseDups := by
  have hmem : name ∈ names ↔ s.contains name = true := by
    rw [← Storage.mem_names, h, List.mem_eraseDups]
  cases hn : s.slot? name with
  | some i =>
    rw [insert_of_some hn, h, eraseDups_concat_of_mem (hmem.mpr (contains_iff.mpr ⟨i, hn⟩))]
  | none =>
    have hnew : name ∉ names := fun hm => by
      obtain ⟨i, hi⟩ := contains_iff.mp (hmem.mp hm)
      cases hn.symm.trans hi
    rw [insert_of_none hn, names_push, h, eraseDups_concat_of_not_mem hnew]

theorem Pool.index?_push {pool : Pool} {label : String} {site site' : Site} {text text' : String}
    (h : pool.index? site text = none) :
    (pool.push label site text h).index? site' text' =
      if (site', text') = (site, text) then some pool.entries.length else pool.index? site' text' := by
  show List.lookup (site', text') (((site, text), pool.entries.length) :: pool.bySite) = _
  rw [List.lookup_cons]
  split
  · next heq => rw [if_pos (eq_of_beq heq)]
  · next hne => rw [if_neg (ne_of_beq_false hne), index?]

namespace Plan

/-! ### Plans that hold first occurrences -/

/-- the entry for a text that is the next after so many -/
def entryAt (i : Nat) (t : Site × String) : PoolEntry := ⟨Labels.label Pool.stem i, t.2.toUTF8⟩

/-- The pool has an entry for each of the texts, and finds it at its place; so many labels are taken. -/
structure Pooled (plan : Plan) (texts : List (Site × String)) : Prop where
  entries : plan.pool.entries = texts.eraseDups.mapIdx entryAt
  indices : ∀ site text i,
    plan.pool.index? site text = some i ↔ texts.eraseDups[i]? = some (site, text)
  allocated : plan.labels.allocated = plan.pool.entries.length

/-- the plan holds the names and the texts, each once and in the order in which it first occurs -/
structure Exact (plan : Plan) (names : List String) (texts : List (Site × String)) : Prop
    extends Pooled plan texts where
  names : plan.names = names.eraseDups
  textual : ∀ name, plan.isTextual name = true ↔ ∃ text, (.assigned name, text) ∈ texts

/-- whether the pool has the text for its site -/
def Keeps (plan : Plan) (site : Site) (text : String) : Prop := (plan.pool.index? site text).isSome

theorem keeps_iff {plan : Plan} {site : Site} {text : String} :
    plan.Keeps site text ↔ ∃ i, plan.pool.index? site text = some i := Option.isSome_iff_exists

namespace Pooled

variable {plan : Plan} {texts : List (Site × String)}

theorem length_entries (h : plan.Pooled texts) : plan.pool.entries.length = texts.eraseDups.length := by
  rw [h.entries, List.length_mapIdx]

theorem keeps_iff_mem (h : plan.Pooled texts) {site : Site} {text : String} :
    plan.Keeps site text ↔ (site, text) ∈ texts := by
  rw [keeps_iff, ← List.mem_eraseDups, List.mem_iff_getElem?]
  exact exists_congr fun i => h.indices site text i

/-- a text gets the next label if it is new -/
theorem addText (h : plan.Pooled texts) (site : Site) (text : String) :
    (plan.addText site text).Pooled (texts ++ [(site, text)]) := by
  unfold Plan.addText
  cases hi : plan.pool.index? site text with
  | some i =>
    have hm : (site, text) ∈ texts := h.keeps_iff_mem.mp (keeps_iff.mpr ⟨i, hi⟩)
    rw [Pool.insert_of_some hi]
    refine ⟨?_, ?_, h.allocated⟩
    · rw [eraseDups_concat_of_mem hm, ← h.entries]
    · rw [eraseDups_concat_of_mem hm]
      exact h.indices
  | none =>
    have hm : (site, text) ∉ texts := fun hm => by
      obtain ⟨i, hkept⟩ := keeps_iff.mp (h.keeps_iff_mem.mpr hm)
      cases hi.symm.trans hkept
    have hlength := h.length_entries
    rw [Pool.insert_of_none hi]
    refine ⟨?_, fun site' text' i => ?_, ?_⟩
    · rw [eraseDups_concat_of_not_mem hm, List.mapIdx_concat, ← h.entries, ← hlength, ← h.allocated]
      rfl
    · have hnew : ∀ j, texts.eraseDups[j]? ≠ some (site, text) := fun j hj =>
        hm (List.mem_eraseDups.mp (List.mem_of_getElem? hj))
      rw [eraseDups_concat_of_not_mem hm, getElem?_concat_eq_some, Pool.index?_push, hlength]
      split
      · next heq => simp [heq, hnew, eq_comm]
      · next hne => simp [hne, h.indices]
    · show plan.labels.allocated + 1 = (plan.pool.entries ++ [_]).length
      rw [h.allocated, List.length_append, List.length_singleton]

end Pooled

namespace Exact

variable {plan : Plan} {names : List String} {texts : List (Site × String)}

theorem empty : Exact {} [] [] where
  entries := rfl
  indices _ _ _ := by simp [Pool.index?, Pool.empty]
  allocated := rfl
  names := rfl
  textual _ := by simp [isTextual, Storage.isTextual, Storage.empty]

theorem addName (h : plan.Exact names texts) (name : String) :
    (plan.addName name).Exact (names ++ [name]) texts where
  toPooled := ⟨h.entries, h.indices, h.allocated⟩
  names := Storage.names_insert h.names name
  textual other := by
    show (plan.storage.insert name).2.isTextual other = true ↔ _
    rw [Storage.isTextual_insert]
    exact h.textual other

theorem addNames (h : plan.Exact names texts) (more : List String) :
    (plan.addNames more).Exact (names ++ more) texts := by
  unfold Plan.addNames
  induction more generalizing plan names with
  | nil => rwa [List.append_nil]
  | cons name more ih =>
    rw [List.append_cons]
    exact ih (h.addName name)

theorem assignText (h : plan.Exact names texts) (name text : String) :
    ((plan.markTextual name).addText (.assigned name) text).Exact names
      (texts ++ [(.assigned name, text)]) where
  toPooled :=
    have hpooled : (plan.markTextual name).Pooled texts := ⟨h.entries, h.indices, h.allocated⟩
    hpooled.addText (.assigned name) text
  names := (Storage.names_mark plan.storage name).trans h.names
  textual other := by
    refine Storage.isTextual_mark.trans ((or_congr_right (h.textual other)).trans ?_)
    simp [exists_or, or_comm]

theorem printText (h : plan.Exact names texts) (text : String) :
    (plan.addText .printed text).Exact names (texts ++ [(.printed, text)]) where
  toPooled := h.toPooled.addText _ _
  names := h.names
  textual other := by
    refine (h.textual other).trans (exists_congr fun _ => ?_)
    simp

/-- **A statement adds its names and its text.** -/
theorem addPart (h : plan.Exact names texts) (s : Stmt) :
    (plan.addPart s).Exact (names ++ s.names) (texts ++ s.text?.toList) := by
  cases s with
  | assign name value =>
    rw [Stmt.names, List.append_cons]
    show (plan.addAssignment name value).Exact _ _
    unfold addAssignment
    rw [value.literal?_eq_text?]
    cases hv : value.text? with
    | none =>
      rw [Stmt.text?, hv, Option.map_none, Option.toList_none, List.append_nil]
      exact (h.addName name).addNames value.names
    | some text =>
      rw [Stmt.text?, hv, Option.map_some, Option.toList_some]
      exact ((h.addName name).assignText name text).addNames value.names
  | print value =>
    show (plan.addPrinted value).Exact _ _
    unfold addPrinted
    rw [value.literal?_eq_text?]
    cases hv : value.text? with
    | none =>
      rw [Stmt.text?, hv, Option.map_none, Option.toList_none, List.append_nil]
      exact h.addNames value.names
    | some text =>
      rw [Stmt.text?, hv, Option.map_some, Option.toList_some]
      exact (h.printText text).addNames value.names
  | ite condition body other =>
    rw [Stmt.text?, Option.toList_none, List.append_nil]
    exact h.addNames condition.names
  | «while» condition body =>
    rw [Stmt.text?, Option.toList_none, List.append_nil]
    exact h.addNames condition.names
  | block body =>
    rw [Stmt.text?, Stmt.names, Option.toList_none, List.append_nil, List.append_nil]
    exact h

theorem foldl (h : plan.Exact names texts) (parts : List Stmt) :
    (parts.foldl Plan.addPart plan).Exact (names ++ parts.flatMap Stmt.names)
      (texts ++ parts.filterMap Stmt.text?) := by
  induction parts generalizing plan names texts with
  | nil => simpa using h
  | cons s ss ih =>
    have hrest := ih (h.addPart s)
    have htexts : (s :: ss).filterMap Stmt.text? = s.text?.toList ++ ss.filterMap Stmt.text? := by
      cases ht : s.text? <;> simp [ht]
    rwa [List.foldl_cons, List.flatMap_cons, htexts, ← List.append_assoc, ← List.append_assoc]

end Exact

/-! ### The plan of a program -/

variable {p : Program}

/-- **The plan of a program holds its names and its texts**, each once and in the order in which it first
occurs. -/
theorem exact_plan (p : Program) : p.plan.Exact p.names p.texts := by
  rw [plan_eq_foldl]
  exact Exact.empty.foldl (Stmt.partsBlock p)

/-- **The names of a plan are those that occur in the program.** -/
theorem mem_names_plan {x : String} :
    x ∈ p.plan.names ↔ ∃ s ∈ Stmt.partsBlock p, x ∈ s.names := by
  rw [(exact_plan p).names, List.mem_eraseDups, Program.names, List.mem_flatMap]

/-- **A text is in the pool exactly if a statement of the program assigns or prints it there.** -/
theorem keeps_plan {site : Site} {text : String} :
    p.plan.Keeps site text ↔ ∃ s ∈ Stmt.partsBlock p, s.text? = some (site, text) := by
  rw [(exact_plan p).keeps_iff_mem, Program.texts, List.mem_filterMap]

/-- **A variable is textual exactly if a statement of the program assigns a text literal to it.** -/
theorem isTextual_plan_iff {name : String} : p.plan.isTextual name = true ↔ p.AssignsText name := by
  rw [(exact_plan p).textual]
  constructor
  · rintro ⟨text, ht⟩
    obtain ⟨value, hs, hv⟩ := Program.mem_texts_assigned.mp ht
    exact ⟨value, text, hs, hv⟩
  · rintro ⟨value, text, hs, hv⟩
    exact ⟨text, Program.mem_texts_assigned.mpr ⟨value, hs, hv⟩⟩

/-- an entry is kept for a variable only if some statement assigns its text to this variable -/
theorem assigned_of_entryFor? {name text : String} {e : PoolEntry}
    (he : p.plan.entryFor? name text = some e) :
    ∃ value, .assign name value ∈ Stmt.partsBlock p ∧ value.text? = some text := by
  obtain ⟨i, hi, -⟩ := Pool.entry?_eq_some.mp he
  exact Program.mem_texts_assigned.mp ((exact_plan p).keeps_iff_mem.mp (keeps_iff.mpr ⟨i, hi⟩))

end Plan

end TinyScript
