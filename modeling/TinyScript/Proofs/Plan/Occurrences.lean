import TinyScript.Proofs.Compile.Labels
import TinyScript.Proofs.Lexical.Names

/-!
# The plan of a program, exactly

The plan has a slot for each identifier among the tokens of the program and an entry for each text that is
assigned or printed, both numbered in the order in which they first occur, and it finds exactly the texts that
are assigned.

* `Program.Assigns`        a statement of the program, at any depth, assigns a text to a variable
* `labelFor_eq_ok`         the label of a text has the number of its first occurrence
* `plan_exact`             what the plan of a program is, and what it answers
-/

namespace TinyScript

/-- some statement of the program, at any depth, assigns the text to the variable, perhaps in parentheses -/
def Program.Assigns (p : Program) (name text : String) : Prop :=
  ∃ value, .assign name value ∈ Stmt.partsBlock p ∧ value.text? = some text

/-- A plan that is exactly the one of a program. -/
structure Plan.ExactFor (plan : Plan) (p : Program) : Prop where
  /-- the identifiers among the tokens of the program, each at its first occurrence -/
  names : plan.storage.names = p.identifiers.eraseDups
  distinct : plan.storage.names.Nodup
  len : plan.storage.names.length = plan.storage.len
  /-- the number of the slot of a variable is its place, and nothing else has a slot -/
  slots : ∀ name i, plan.storage.slot? name = some i ↔ p.identifiers.eraseDups[i]? = some name
  textual : ∀ name, plan.storage.isTextual name = true ↔ ∃ text, p.Assigns name text
  /-- the texts that are assigned and those that are printed, each at its first occurrence -/
  entries : plan.pool.entries =
    p.texts.eraseDups.mapIdx fun i t => ⟨"str" ++ Decimal.integer i, t.2.toUTF8⟩
  /-- the map finds each text where its entry is, and nothing else -/
  indices : ∀ site text i,
    plan.pool.index? site text = some i ↔ p.texts.eraseDups[i]? = some (site, text)
  allocated : plan.labels.allocated = plan.pool.entries.length
  /-- a text is found for a variable exactly if it is assigned to it -/
  found : ∀ name text, (∃ label, plan.labelFor name text = .ok label) ↔ p.Assigns name text
  missing : ∀ name text, ¬ p.Assigns name text →
    plan.labelFor name text = .error (.missingLiteral name)
  /-- the label that is found is that of an entry with the bytes of the text -/
  entry : ∀ name text label, plan.labelFor name text = .ok label →
    ∃ e ∈ plan.pool.entries, e.label = label ∧ e.bytes = text.toUTF8
  apart : ∀ name text name' text' label, plan.labelFor name text = .ok label →
    plan.labelFor name' text' = .ok label → name = name' ∧ text = text'

namespace Plan

variable {p : Program} {name text label : String}

/-- what is found for a text has the number of the first statement that assigns it to the variable -/
theorem labelFor_eq_ok (h : p.plan.labelFor name text = .ok label) :
    ∃ i : Nat, p.texts.eraseDups[i]? = some (.assigned name, text) ∧ label = Labels.label Pool.stem i := by
  obtain ⟨e, he, rfl⟩ := labelFor_ok h
  obtain ⟨i, hi, he⟩ := Pool.entry?_eq_some.mp he
  have htext := ((exact_plan p).indices _ _ _).mp hi
  rw [(exact_plan p).entries, List.getElem?_mapIdx, htext, Option.map_some, Option.some.injEq] at he
  exact ⟨i, htext, congrArg PoolEntry.label he.symm⟩

theorem labelFor_of_assigns (h : p.Assigns name text) :
    ∃ label, p.plan.labelFor name text = .ok label := by
  have hkeeps := (exact_plan p).keeps_iff_mem.mpr (Program.mem_texts_assigned.mpr h)
  obtain ⟨e, he⟩ := Option.isSome_iff_exists.mp (Pool.isSome_entry?.trans hkeeps)
  exact ⟨e.label, by rw [labelFor, entryFor?, he]⟩

theorem assigns_of_labelFor (h : p.plan.labelFor name text = .ok label) : p.Assigns name text := by
  obtain ⟨i, hi, -⟩ := labelFor_eq_ok h
  exact Program.mem_texts_assigned.mp (List.mem_eraseDups.mp (List.mem_of_getElem? hi))

end Plan

/-- **The plan of a program is exact**: it has the names and texts of the program, each once and in the order
in which it first occurs, and it answers for exactly the texts that the program assigns. -/
theorem plan_exact (p : Program) : p.plan.ExactFor p where
  names := by
    rw [p.identifiers_eq_names]
    exact (Plan.exact_plan p).names
  distinct := p.plan.storage.nodup_names
  len := p.plan.storage.length_names
  slots name i := by
    rw [Storage.slot?_eq_some_iff, p.identifiers_eq_names, ← (Plan.exact_plan p).names]
    rfl
  textual name := by
    refine Plan.isTextual_plan_iff.trans ?_
    exact exists_comm
  entries := (Plan.exact_plan p).entries
  indices := (Plan.exact_plan p).indices
  allocated := (Plan.exact_plan p).allocated
  found name text := ⟨fun ⟨_, h⟩ => Plan.assigns_of_labelFor h, Plan.labelFor_of_assigns⟩
  missing name text h := by
    cases hl : p.plan.labelFor name text with
    | ok label => exact absurd (Plan.assigns_of_labelFor hl) h
    | error failure =>
      unfold Plan.labelFor at hl
      split at hl
      · cases hl
      · exact hl.symm
  entry name text label h := by
    obtain ⟨e, he, hlabel⟩ := Plan.labelFor_ok h
    exact ⟨e, Pool.mem_of_entry? he, hlabel, Pool.bytes_of_entry? he⟩
  apart name text name' text' label h h' := by
    obtain ⟨i, hi, hlabel⟩ := Plan.labelFor_eq_ok h
    obtain ⟨j, hj, hlabel'⟩ := Plan.labelFor_eq_ok h'
    obtain rfl : i = j := Labels.label_injective _ (hlabel.symm.trans hlabel')
    obtain ⟨hsite, htext⟩ := Prod.mk.inj (Option.some.inj (hi.symm.trans hj))
    exact ⟨Site.assigned.inj hsite, htext⟩

/-- a text that is assigned to two variables, the second time in a loop, and printed -/
example :
    let p : Program := [.assign "a" (.text "x"), .print (.group (.text "x")),
      .while (.var "n") [.assign "b" (.group (.text "x")), .assign "a" (.text "x")]]
    p.plan.names = ["a", "n", "b"] ∧ p.plan.storage.slot? "n" = some 1 ∧
      p.plan.pool.entries.map (fun e => (e.label, e.bytes)) =
        [("str0", "x".toUTF8), ("str1", "x".toUTF8), ("str2", "x".toUTF8)] := by
  decide +kernel

end TinyScript
