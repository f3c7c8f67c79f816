import TinyScript.Files
import TinyScript.Options.Arguments
import TinyScript.Proofs.Except

/-!
# Values of a command line

* `Options.output_ne_empty`   the output directory of a command line has a name
-/

namespace TinyScript

namespace Arguments

/-- the output directory, as far as there is one, has a name -/
def State.OutputNamed (s : State) : Prop := s.output ≠ some ""

variable {s t : State}

theorem outputNamed_assign {slot : Slot} {value : String} (hs : s.OutputNamed)
    (h : assign s slot value = .ok t) : t.OutputNamed := by
  unfold assign at h
  cases slot with
  | input =>
    dsimp only at h
    split at h
    · cases h
    · exact Except.ok.inj h ▸ hs
  | output =>
    dsimp only at h
    split at h
    · cases h
    · split at h
      · cases h
      · next hvalue =>
        rw [← Except.ok.inj h]
        exact fun heq => hvalue (Option.some.inj heq)
  | treeFormat =>
    dsimp only at h
    split at h
    · cases h
    · split at h
      · exact Except.ok.inj h ▸ hs
      · cases h

theorem outputNamed_settle (hs : s.OutputNamed) (h : settle s = .ok t) : t.OutputNamed := by
  unfold settle at h
  split at h
  · exact Except.ok.inj h ▸ hs
  · cases h
  · exact outputNamed_assign (s := { s with waiting := none }) hs h

theorem outputNamed_switch {w : Switch} (hs : s.OutputNamed) (h : switch s w = .ok t) :
    t.OutputNamed := by
  obtain ⟨u, hu, h⟩ := ok_of_bind h
  have hu := outputNamed_settle hs hu
  cases w with
  | noRun | noCompile =>
    unfold turnOn at h
    dsimp only at h
    split at h
    · cases h
    · exact Except.ok.inj h ▸ hu
  | verbose => exact Except.ok.inj h ▸ hu
  | help | version => cases h

theorem outputNamed_attached {slot : Slot} {value : String} (hs : s.OutputNamed)
    (h : attached s slot value = .ok t) : t.OutputNamed := by
  obtain ⟨u, hu, h⟩ := ok_of_bind h
  exact outputNamed_assign (outputNamed_settle hs hu) h

theorem outputNamed_await {slot : Slot} (hs : s.OutputNamed) (h : await s slot = .ok t) :
    t.OutputNamed := by
  obtain ⟨u, hu, h⟩ := ok_of_bind h
  obtain rfl := Except.ok.inj h
  exact (outputNamed_settle hs hu : u.OutputNamed)

theorem outputNamed_file {name : String} (hs : s.OutputNamed) (h : file s name = .ok t) :
    t.OutputNamed := by
  unfold file at h
  split at h
  · cases h
  · obtain ⟨u, hu, h⟩ := ok_of_bind h
    obtain rfl := Except.ok.inj h
    exact (outputNamed_settle hs hu : u.OutputNamed)

theorem outputNamed_long {cs : List Char} (hs : s.OutputNamed) (h : long s cs = .ok t) :
    t.OutputNamed := by
  unfold long at h
  extract_lets value at h
  split at h
  · cases h
  · exact outputNamed_switch hs h
  · cases h
  · exact outputNamed_await hs h
  · exact outputNamed_attached hs h

theorem outputNamed_short {cs : List Char} (hs : s.OutputNamed) (h : short s cs = .ok t) :
    t.OutputNamed := by
  fun_induction short s cs with
  | case1 s => exact Except.ok.inj h ▸ hs
  | case2 s cs ih =>
    obtain ⟨u, hu, h⟩ := ok_of_bind h
    exact ih u (outputNamed_switch hs hu) h
  | case3 s | case4 s => exact outputNamed_switch hs h
  | case5 s => exact outputNamed_await hs h
  | case6 s cs | case7 s cs => exact outputNamed_attached hs h
  | case8 s => cases h

theorem outputNamed_step {argument : String} (hs : s.OutputNamed) (h : step s argument = .ok t) :
    t.OutputNamed := by
  unfold step at h
  split at h
  · exact outputNamed_file hs h
  · split at h
    · exact Except.ok.inj h ▸ hs
    · exact outputNamed_long hs h
    · exact outputNamed_short hs h
    · unfold plain at h
      split at h
      · exact Except.ok.inj h ▸ hs
      · exact outputNamed_file hs h

theorem outputNamed_foldlM {arguments : List String} (hs : s.OutputNamed)
    (h : arguments.foldlM step s = .ok t) : t.OutputNamed := by
  induction arguments generalizing s with
  | nil => exact Except.ok.inj h ▸ hs
  | cons argument arguments ih =>
    obtain ⟨u, hu, h⟩ := ok_of_bind h
    exact ih (outputNamed_step hs hu) h

end Arguments

theorem Options.output_ne_empty {arguments : List String} {options : Options}
    (h : Options.ofArguments arguments = .ok options) : options.output ≠ "" := by
  obtain ⟨s, hs, h⟩ := ok_of_bind h
  obtain ⟨t, ht, h⟩ := ok_of_bind h
  have hnamed : t.OutputNamed :=
    Arguments.outputNamed_settle (Arguments.outputNamed_foldlM (s := {}) nofun hs) ht
  rw [← Except.ok.inj h]
  show t.output.getD "." ≠ ""
  cases hv : t.output with
  | none => decide
  | some value => exact fun heq => hnamed (hv.trans (congrArg some heq))

end TinyScript
