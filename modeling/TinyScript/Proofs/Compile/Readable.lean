import TinyScript.Proofs.Assembly.Text
import TinyScript.Proofs.Compile.Written

/-!
# The text of a listing determines the listing

What is written to a file are texts, and what the machine loads are lines.  If the variables are called by
names, as those of every source text are, nothing is lost between the two.

* `Plan.isName_of_known`        the labels of a listing are names
* `Plan.plain_of_mem_listing`   its lines are plain
* `listing_eq_of_fileText_eq`   programs whose listings are written alike have the same listing
-/

namespace TinyScript

open Assembly

/-! ### Labels -/

theorem Text.isName_append {s t : String} (hs : Text.isName s = true)
    (ht : ∀ c ∈ t.toList, isWordChar c = true) : Text.isName (s ++ t) = true := by
  obtain ⟨hhead, hletters⟩ := Bool.and_eq_true_iff.mp hs
  rw [Text.isName, String.toList_append, List.all_append, hletters, List.all_eq_true.mpr ht,
    List.head?_append]
  cases hc : s.toList.head? with
  | none => rw [hc] at hhead; cases hhead
  | some c => rw [hc] at hhead; simpa using hhead

theorem Labels.isName_label {stem : String} (h : Text.isName stem = true) (n : Nat) :
    Text.isName (label stem n) = true := by
  refine Text.isName_append h fun c hc => Scan.isWordChar_of_isDigit ?_
  rw [Decimal.toList_integer_natCast] at hc
  exact Nat.isDigit_of_mem_toDigits (by decide) (by decide) hc

namespace Plan

variable {plan : Plan} {p : Program} {lines : List Line}

theorem isName_fixedLabels : ∀ label ∈ fixedLabels, Text.isName label = true := by decide +kernel

theorem isName_of_known (hr : plan.Regular) (hnames : ∀ name ∈ plan.names, Text.isName name = true)
    {n count : Nat} {label : String} (h : plan.Known n count label) : Text.isName label = true := by
  cases h with
  | fixed h => exact isName_fixedLabels label h
  | control _ _ => exact Labels.isName_label (by decide) _
  | @literal e h =>
    have he := List.mem_map_of_mem (f := PoolEntry.label) h
    rw [hr.entry_labels] at he
    obtain ⟨k, -, hk⟩ := List.mem_map.mp he
    rw [← hk]
    exact Labels.isName_label (by decide) k
  | @slot name h => exact Text.isName_append (by decide) (Text.isWordChar_of_isName (hnames name h))

/-- The lines of a listing are plain if its variables are called by names. -/
theorem plain_of_mem_listing (hr : plan.Regular)
    (hnames : ∀ name ∈ plan.names, Text.isName name = true) (h : plan.listing p = .ok lines) :
    ∀ line ∈ lines, line.Plain := by
  intro line hl
  cases line with
  | label name => exact isName_of_known hr hnames (known_of_mem_labels h (mem_labels.mpr hl))
  | instr i =>
    refine ⟨(numbered_listing h).of_mem hl, fun label hlabel => ?_⟩
    exact isName_of_known hr hnames (refers_listing h label (mem_references hl hlabel))
  | data value count => trivial
  | blank => trivial

end Plan

/-! ### Texts -/

theorem Assembly.eq_of_texts_eq {lines lines' : List Line} (h : ∀ line ∈ lines, line.Plain)
    (h' : ∀ line ∈ lines', line.Plain) (heq : texts lines = texts lines') : lines = lines' := by
  induction lines generalizing lines' with
  | nil => exact (List.map_eq_nil_iff.mp heq.symm).symm
  | cons line lines ih =>
    cases lines' with
    | nil => cases heq
    | cons line' lines' =>
      obtain ⟨hline, hlines⟩ := List.forall_mem_cons.mp h
      obtain ⟨hline', hlines'⟩ := List.forall_mem_cons.mp h'
      obtain ⟨hfirst, hrest⟩ := List.cons.inj heq
      rw [Line.text_injective hline hline' hfirst, ih hlines hlines' hrest]

/-- **The text of a compiled program determines its listing**, and so what the machine does that loads it.
Here two programs may have different plans, as long as their variables are called by names. -/
theorem listing_eq_of_fileText_eq {p q : Program} {lines lines' : List Line}
    (h : p.compile = .ok lines) (h' : q.compile = .ok lines')
    (hp : ∀ name ∈ p.plan.names, Text.isName name = true)
    (hq : ∀ name ∈ q.plan.names, Text.isName name = true)
    (heq : fileText lines = fileText lines') : lines = lines' := by
  have hpieces {r : Program} {written : List Line} (hr : r.compile = .ok written)
      (hnames : ∀ name ∈ r.plan.names, Text.isName name = true) :
      Text.pieces (fileText written) = texts written ++ [""] := by
    have hharmless name hn : Text.Harmless name := Text.harmless_of_isName (hnames name hn)
    exact (Plan.legible_listing (Plan.regular_plan r) hr
      (fun name hn => Text.inherited_newline.harmless (hharmless name hn))
      fun name hn => Text.inherited_colon.harmless (hharmless name hn)).pieces
  have htexts : texts lines = texts lines' := by
    have hboth := hpieces h hp
    rw [heq, hpieces h' hq] at hboth
    exact (List.append_cancel_right hboth).symm
  exact eq_of_texts_eq (Plan.plain_of_mem_listing (Plan.regular_plan p) hp h)
    (Plan.plain_of_mem_listing (Plan.regular_plan q) hq h') htexts

end TinyScript
