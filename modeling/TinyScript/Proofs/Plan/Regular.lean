import TinyScript.Proofs.Plan.Contents

/-!
# What holds of every plan

The literals of the plan of a program are labelled with the numbers below the counter, each with its own, and
a literal is kept for a variable only if that variable is textual.

* `Plan.Regular`     the two facts
* `regular_plan`     they hold of the plan of a program
-/

namespace TinyScript

namespace Plan

structure Regular (plan : Plan) : Prop where
  entry_labels : plan.pool.entries.map PoolEntry.label =
    (List.range plan.labels.allocated).map (Labels.label Pool.stem)
  textual_of_entryFor? : ∀ name text e, plan.entryFor? name text = some e → plan.isTextual name = true

theorem Pooled.map_label {plan : Plan} {texts : List (Site × String)} (h : plan.Pooled texts) :
    plan.pool.entries.map PoolEntry.label =
      (List.range plan.labels.allocated).map (Labels.label Pool.stem) := by
  rw [h.allocated, h.length_entries, h.entries]
  apply List.ext_getElem
  · simp
  · intro i _ _
    simp [entryAt]

theorem regular_plan (p : Program) : p.plan.Regular where
  entry_labels := (exact_plan p).map_label
  textual_of_entryFor? name text e he := by
    obtain ⟨value, hs, hv⟩ := assigned_of_entryFor? he
    exact isTextual_plan_iff.mpr ⟨value, text, hs, hv⟩

end Plan

end TinyScript
