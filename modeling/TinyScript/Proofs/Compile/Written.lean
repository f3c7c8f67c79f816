import TinyScript.Pipeline
import TinyScript.Proofs.Compile.Closed
import TinyScript.Proofs.Compile.Registers
import TinyScript.Proofs.Interchange
import TinyScript.Proofs.Lexical.Names
import TinyScript.Proofs.Text.Lines

/-!
# The text of a listing

The lines of a listing are written one after the other, and whoever reads the text cuts it at its
newlines.  A variable is named in some of the lines.  The names that are read from a source text are
harmless, but a document may have any name.

* `Text.Inherited.instr`        what the text of an instruction inherits
* `Plan.text_inherits`          what any line of a listing but a label inherits
* `Assembly.Legible`            the pieces of a text are the lines and define no label twice
* `Plan.legible_listing`        it is so unless a name has a newline or ends with a colon
* `Plan.defined_again`          a name with a newline may define a label of the listing again
* `legible_text`                all of this for the program that was read
-/

namespace TinyScript

open Assembly

/-! ### Instructions -/

namespace Text.Inherited

variable {P : String → Prop} (hP : Inherited P)

include hP

theorem written {mnemonic : String} (hm : Harmless mnemonic) {operands : List String}
    (h : ∀ s ∈ operands, P s) : P (written mnemonic operands) := by
  have hblank : Harmless " " := by decide
  have hcomma : Harmless ", " := by decide
  exact hP.append (hP.append (hP.harmless hm) (hP.harmless hblank)) (hP.intercalate hcomma h)

theorem register (n : Fin 32) : P (Reg.numbered n).name := by
  have hx : Harmless "x" := by decide
  exact hP.append (hP.harmless hx) (hP.integer n.val)

/-- The text of an instruction inherits from its registers and from the label to which it refers. -/
theorem instr {i : Instr} (hr : ∀ r ∈ i.registers, P r.name) (hl : ∀ label ∈ i.label?, P label) :
    P i.text := by
  have hnumber (n : Int32) : P (number n) := hP.integer n.toInt
  have halu (op : Alu) : Harmless op.mnemonic := by
    cases op <;> decide
  have htest (test : Test) : Harmless test.mnemonic := by
    cases test <;> decide
  cases i with
  | alu op rd a b => exact hP.written (halu op) (by simp_all [Instr.registers])
  | branch test a b label =>
    exact hP.written (htest test) (by simp_all [Instr.registers, Instr.label?])
  | ebreak => exact hP.harmless (by decide)
  | _ => exact hP.written (by decide) (by simp_all [Instr.registers, Instr.label?])

end Text.Inherited

/-! ### The lines of a listing -/

namespace Assembly

theorem mem_labels {label : String} {lines : List Line} :
    label ∈ labels lines ↔ .label label ∈ lines := by
  induction lines with
  | nil => simp [labels]
  | cons line lines ih =>
    cases line <;> simp [labels, ih]

theorem mem_references {label : String} {i : Instr} {lines : List Line} (hi : .instr i ∈ lines)
    (hl : label ∈ i.label?) : label ∈ references lines :=
  List.mem_filterMap.mpr ⟨.instr i, hi, hl⟩

/-- The labels that the texts of lines define are those of the lines, if only labels end in colons. -/
theorem filterMap_defined? {lines : List Line}
    (h : ∀ line ∈ lines, (∀ name, line ≠ .label name) → line.text.toList.getLast? ≠ some ':') :
    (texts lines).filterMap Text.defined? = labels lines := by
  induction lines with
  | nil => rfl
  | cons line lines ih =>
    obtain ⟨hline, hlines⟩ := List.forall_mem_cons.mp h
    rw [texts, List.map_cons]
    cases line with
    | label name =>
      have hdefined : Text.defined? (Line.label name).text = some name := Text.defined?_colon name
      rw [List.filterMap_cons_some hdefined]
      exact congrArg (name :: ·) (ih hlines)
    | _ =>
      have hcolon := Text.defined?_eq_none (hline fun name h => nomatch h)
      rw [List.filterMap_cons_none hcolon]
      exact ih hlines

end Assembly

namespace Plan

variable {plan : Plan} {P : String → Prop}

theorem known_of_mem_labels {p : Program} {lines : List Line} (h : plan.listing p = .ok lines)
    {label : String} (hl : label ∈ Assembly.labels lines) :
    plan.Known plan.labels.allocated (plan.labelCountBlock p) label := by
  rw [(labels_listing_perm h).mem_iff, List.mem_append, List.mem_append, List.mem_append] at hl
  rcases hl with hfixed | hcontrol | hpool | hslot
  · exact .fixed hfixed
  · obtain ⟨k, hk, rfl⟩ := List.mem_map.mp hcontrol
    obtain ⟨hlo, hhi⟩ := List.mem_range'_1.mp hk
    exact .control hlo hhi
  · obtain ⟨e, he, rfl⟩ := List.mem_map.mp hpool
    exact .literal he
  · obtain ⟨name, hn, rfl⟩ := List.mem_map.mp hslot
    exact .slot hn

theorem harmless_fixedLabels : ∀ label ∈ fixedLabels, Text.Harmless label := by decide +kernel

/-- Only the names of the variables matter for the labels of a plan. -/
theorem Known.inherits (hr : plan.Regular) (hP : Text.Inherited P)
    (hnames : ∀ name ∈ plan.names, P name) {n count : Nat} {label : String}
    (h : plan.Known n count label) : P label := by
  cases h with
  | fixed h => exact hP.harmless (harmless_fixedLabels label h)
  | control _ _ => exact hP.label (by decide) _
  | @literal e h =>
    have he := List.mem_map_of_mem (f := PoolEntry.label) h
    rw [hr.entry_labels] at he
    obtain ⟨k, -, hk⟩ := List.mem_map.mp he
    rw [← hk]
    exact hP.label (by decide) k
  | @slot name h => exact hP.append (hP.harmless (by decide)) (hnames name h)

/-- A line other than a label inherits from the names of the variables. -/
theorem text_inherits (hr : plan.Regular) (hP : Text.Inherited P)
    (hnames : ∀ name ∈ plan.names, P name) {p : Program} {lines : List Line}
    (h : plan.listing p = .ok lines) {line : Line} (hl : line ∈ lines)
    (hline : ∀ name, line ≠ .label name) : P line.text := by
  cases line with
  | label name => exact absurd rfl (hline name)
  | instr i =>
    refine hP.instr (fun r hreg => ?_) fun label hlabel => ?_
    · obtain ⟨n, rfl⟩ := (numbered_listing h).of_mem hl r hreg
      exact hP.register n
    · exact (refers_listing h label (mem_references hl hlabel)).inherits hr hP hnames
  | data value count =>
    have hdata : Text.Harmless "data " := by decide
    have htimes : Text.Harmless " * " := by decide
    exact hP.append (hP.append (hP.append (hP.harmless hdata) (hP.integer value.toInt))
      (hP.harmless htimes)) (hP.integer count)
  | blank => exact hP.harmless (by decide)

theorem newline_not_mem_texts_iff (hr : plan.Regular) {p : Program} {lines : List Line}
    (h : plan.listing p = .ok lines) :
    (∀ text ∈ texts lines, '\n' ∉ text.toList) ↔ ∀ name ∈ plan.names, '\n' ∉ name.toList := by
  constructor
  · intro htexts name hn hnewline
    have hslot : plan.Known plan.labels.allocated (plan.labelCountBlock p) (slotLabel name) :=
      .slot hn
    have hmem := List.mem_map_of_mem (f := Line.text) (mem_labels.mp (hslot.mem_labels h))
    apply htexts _ hmem
    show '\n' ∈ ("var_" ++ name ++ ":").toList
    rw [String.toList_append, String.toList_append]
    exact List.mem_append_left _ (List.mem_append_right _ hnewline)
  · intro hnames text htext
    obtain ⟨line, hl, rfl⟩ := List.mem_map.mp htext
    by_cases hline : ∃ name, line = .label name
    · obtain ⟨name, rfl⟩ := hline
      have hknown := known_of_mem_labels h (mem_labels.mpr hl)
      have hcolon : '\n' ∉ ":".toList := by decide
      exact Text.inherited_newline.append (hknown.inherits hr Text.inherited_newline hnames) hcolon
    · exact text_inherits hr Text.inherited_newline hnames h hl fun name he => hline ⟨name, he⟩

end Plan

/-! ### The text of a listing -/

/-- The text of the lines consists of these lines, and no two of its lines define one label. -/
structure Assembly.Legible (lines : List Line) : Prop where
  pieces : Text.pieces (fileText lines) = texts lines ++ [""]
  nodup : ((Text.pieces (fileText lines)).filterMap Text.defined?).Nodup

theorem Plan.legible_listing {plan : Plan} (hr : plan.Regular) {p : Program} {lines : List Line}
    (h : plan.listing p = .ok lines) (hnewline : ∀ name ∈ plan.names, '\n' ∉ name.toList)
    (hcolon : ∀ name ∈ plan.names, name.toList.getLast? ≠ some ':') : Legible lines := by
  have hpieces := Text.pieces_joined_iff.mpr ((newline_not_mem_texts_iff hr h).mpr hnewline)
  have hdefined : (texts lines).filterMap Text.defined? = Assembly.labels lines :=
    filterMap_defined? fun line hl => text_inherits hr Text.inherited_colon hcolon h hl
  refine ⟨hpieces, ?_⟩
  show ((Text.pieces (Text.joined (texts lines))).filterMap Text.defined?).Nodup
  rw [hpieces, List.filterMap_append, hdefined]
  show (Assembly.labels lines ++ []).Nodup
  rw [List.append_nil]
  exact nodup_labels_listing hr h

/-! ### Labels that are defined again -/

theorem one_lt_count_flatMap {α β : Type} [BEq β] [LawfulBEq β] {f : α → List β} {as : List α}
    {a b : α} {x : β} (ha : a ∈ as) (hb : b ∈ as) (hne : a ≠ b) (hxa : x ∈ f a) (hxb : x ∈ f b) :
    1 < (as.flatMap f).count x := by
  obtain ⟨before, behind, rfl⟩ := List.append_of_mem ha
  have hfirst : 0 < (f a).count x := List.count_pos_iff.mpr hxa
  have hsecond : 0 < (before.flatMap f).count x ∨ 0 < (behind.flatMap f).count x := by
    rcases List.mem_append.mp hb with hb | hb
    · exact .inl (List.count_pos_iff.mpr (List.mem_flatMap.mpr ⟨b, hb, hxb⟩))
    · have hbehind := (List.mem_cons.mp hb).resolve_left (Ne.symm hne)
      exact .inr (List.count_pos_iff.mpr (List.mem_flatMap.mpr ⟨b, hbehind, hxb⟩))
  rw [List.flatMap_append, List.flatMap_cons, List.count_append, List.count_append]
  omega

/-- the labels that the text of a line defines -/
def Assembly.Line.defined (line : Line) : List String :=
  (Text.pieces line.text).filterMap Text.defined?

theorem Assembly.filterMap_pieces (lines : List Line) :
    (Text.pieces (fileText lines)).filterMap Text.defined? = lines.flatMap Line.defined := by
  show (Text.pieces (Text.joined (texts lines))).filterMap Text.defined? = _
  rw [Text.pieces_joined, List.filterMap_append, texts]
  show _ ++ [] = _
  rw [List.append_nil, List.filterMap_flatMap, List.flatMap_map]
  rfl

/-- A label that stands behind a newline at the end of a name is defined where the variable is. -/
theorem Plan.defined_again {plan : Plan} {p : Program} {lines : List Line}
    (h : plan.listing p = .ok lines) {before label : String}
    (hname : before ++ "\n" ++ label ∈ plan.names) (hlabel : '\n' ∉ label.toList)
    (hdefined : label ∈ Assembly.labels lines) :
    1 < ((Text.pieces (fileText lines)).filterMap Text.defined?).count label := by
  have hslot : plan.Known plan.labels.allocated (plan.labelCountBlock p)
      (slotLabel (before ++ "\n" ++ label)) := .slot hname
  have hcolon : '\n' ∉ (label ++ ":").toList :=
    Text.inherited_newline.append hlabel (by decide)
  have hline : (Line.label (slotLabel (before ++ "\n" ++ label))).text =
      "var_" ++ before ++ "\n" ++ (label ++ ":") := by
    show "var_" ++ (before ++ "\n" ++ label) ++ ":" = _
    simp only [String.append_assoc]
  have hagain : label ∈ (Line.label (slotLabel (before ++ "\n" ++ label))).defined := by
    rw [Line.defined, hline, Text.pieces_newline, Text.pieces_of_not_mem hcolon,
      List.filterMap_append, List.filterMap_cons_some (Text.defined?_colon label)]
    exact List.mem_append_right _ List.mem_cons_self
  have hfirst : label ∈ (Line.label label).defined := by
    have htext : (Line.label label).text = label ++ ":" := rfl
    rw [Line.defined, htext, Text.pieces_of_not_mem hcolon,
      List.filterMap_cons_some (Text.defined?_colon label)]
    exact List.mem_cons_self
  have hne : Line.label label ≠ .label (slotLabel (before ++ "\n" ++ label)) := by
    intro he
    rw [Line.label.inj he] at hlabel
    apply hlabel
    show '\n' ∈ ("var_" ++ (before ++ "\n" ++ label)).toList
    simp
  rw [filterMap_pieces]
  exact one_lt_count_flatMap (mem_labels.mp hdefined) (mem_labels.mp (hslot.mem_labels h)) hne
    hfirst hagain

/-- **The text of a compiled program.**  It is cut into the generated lines exactly if no variable has
a newline in its name; it defines no label twice if moreover no name ends with a colon, and the names of
a source text are such.  But a name with a newline can define any label of the program again. -/
theorem legible_text {p : Program} {lines : List Line} (h : p.compile = .ok lines) :
    Sink.writeLines {} (texts lines) = ({ written := (fileText lines).toUTF8 }, true) ∧
    (Text.pieces (fileText lines) = texts lines ++ [""] ↔
      ∀ name ∈ p.plan.names, '\n' ∉ name.toList) ∧
    ((∀ name ∈ p.plan.names, '\n' ∉ name.toList ∧ name.toList.getLast? ≠ some ':') →
      Legible lines) ∧
    (∀ source, Program.ofSource source = .ok p → Legible lines) ∧
    ∀ before label, before ++ "\n" ++ label ∈ p.plan.names → '\n' ∉ label.toList →
      label ∈ Assembly.labels lines →
        1 < ((Text.pieces (fileText lines)).filterMap Text.defined?).count label := by
  have hr := Plan.regular_plan p
  have hlegible (hnames : ∀ name ∈ p.plan.names,
      '\n' ∉ name.toList ∧ name.toList.getLast? ≠ some ':') : Legible lines :=
    Plan.legible_listing hr h (fun name hn => (hnames name hn).1) fun name hn => (hnames name hn).2
  refine ⟨?_, ?_, hlegible, fun source hsource => hlegible fun name hn => ?_, ?_⟩
  · have hwritten : Sink.writeLines {} (texts lines) = _ := Sink.writeLines_of_unbounded rfl _
    rw [hwritten, ByteArray.empty_append]
    rfl
  · exact Text.pieces_joined_iff.trans (Plan.newline_not_mem_texts_iff hr h)
  · have hharmless := Text.harmless_of_isName (isName_of_ofSource hsource name hn)
    exact ⟨Text.inherited_newline.harmless hharmless, Text.inherited_colon.harmless hharmless⟩
  · intro before label hname hlabel hdefined
    exact Plan.defined_again h hname hlabel hdefined

/-- a program with names that no source text has -/
def outlandish : Program :=
  [.assign "unit: price" (.text "1;"), .while (.var "") [.print (.var "unit: price")]]

theorem legible_text_outlandish : ∃ lines, outlandish.compile = .ok lines ∧ Legible lines :=
  have h : outlandish.compile = .ok _ := rfl
  ⟨_, h, (legible_text h).2.2.1 (by decide +kernel)⟩

/-- A document is loaded whose program has the label of its own start in the name of a variable. -/
theorem entry_defined_again :
    ∃ p lines, Program.ofJson
        "\x7b\"statements\":[\x7b\"assign\":\x7b\"name\":\"x\\nmain\",\"value\":\x7b\"int\":1\x7d\x7d\x7d]\x7d" =
          .ok p ∧
      p.compile = .ok lines ∧ Text.pieces (fileText lines) ≠ texts lines ++ [""] ∧
      1 < ((Text.pieces (fileText lines)).filterMap Text.defined?).count "main" := by
  have h : Program.compile [.assign "x\nmain" (.int 1)] = .ok _ := rfl
  have hplan : ("x\nmain" : String) ∈ (Program.plan [.assign "x\nmain" (.int 1)]).names := by
    decide +kernel
  have hmain : "main" ∈ Assembly.labels _ :=
    (Plan.Known.fixed (by decide +kernel)).mem_labels h
  refine ⟨[.assign "x\nmain" (.int 1)], _, by decide +kernel, h, fun hpieces => ?_, ?_⟩
  · have hnames := (Plan.newline_not_mem_texts_iff (Plan.regular_plan _) h).mp
      (Text.pieces_joined_iff.mp hpieces)
    exact absurd (hnames _ hplan) (by decide)
  · have hname : "x" ++ "\n" ++ "main" ∈ (Program.plan [.assign "x\nmain" (.int 1)]).names := hplan
    exact Plan.defined_again h hname (by decide) hmain

end TinyScript
