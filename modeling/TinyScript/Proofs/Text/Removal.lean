import Mathlib.Data.List.Infix
import Mathlib.Logic.ExistsUnique
import TinyScript.Value.Apply

/-!
# Removing a part of a text

The difference of two texts is the first one without the leftmost occurrence of the second.  Occurrences may
overlap, and they are the same whether characters or bytes are looked at: no character of a text begins
within the bytes of another.

* `Text.LeftmostCut`               what stands in front of the leftmost occurrence of a part, and behind it
* `LeftmostCut.unique`             a text is cut there in one way
* `removeFirst_of_isInfix`         what is removed from a text is a leftmost occurrence
* `occurs_of_bytes`                where the bytes of a part occur, the part does
* `difference_cuts_leftmost`       the difference of two texts, and how it undoes joining and repeating
-/

namespace TinyScript

namespace Text

/-! ### The leftmost occurrence -/

def Occurs (part text : String) : Prop := ∃ front back, text = front ++ part ++ back

/-- the text is cut where the part occurs in it, and nowhere further to the left does it occur -/
structure LeftmostCut (text part front back : String) : Prop where
  whole : text = front ++ part ++ back
  leftmost : ∀ front' back', text = front' ++ part ++ back' → front.length ≤ front'.length

variable {part cs : List Char}

theorem removeFirst_of_not_isInfix (h : ¬ part <:+: cs) : removeFirst part cs = cs := by
  induction cs with
  | nil => rfl
  | cons c cs ih =>
    have hhere : ¬ part.isPrefixOf (c :: cs) = true := fun hp =>
      h (List.isPrefixOf_iff_prefix.mp hp).isInfix
    rw [removeFirst, if_neg hhere, ih fun hi => h (List.infix_cons hi)]

theorem removeFirst_of_isInfix (h : part <:+: cs) :
    ∃ front back, cs = front ++ part ++ back ∧
      (∀ front' back', cs = front' ++ part ++ back' → front.length ≤ front'.length) ∧
      removeFirst part cs = front ++ back := by
  induction cs with
  | nil =>
    obtain rfl : part = [] := List.infix_nil.mp h
    exact ⟨[], [], rfl, fun _ _ _ => Nat.zero_le _, rfl⟩
  | cons c cs ih =>
    by_cases hhere : part.isPrefixOf (c :: cs) = true
    · obtain ⟨back, hback⟩ := List.isPrefixOf_iff_prefix.mp hhere
      refine ⟨[], back, hback.symm, fun _ _ _ => Nat.zero_le _, ?_⟩
      rw [removeFirst, if_pos hhere, ← hback, List.drop_left, List.nil_append]
    · have hprefix : ¬ part <+: c :: cs := mt List.isPrefixOf_iff_prefix.mpr hhere
      obtain ⟨front, back, hwhole, hleft, hrest⟩ :=
        ih ((List.infix_cons_iff.mp h).resolve_left hprefix)
      refine ⟨c :: front, back, ?_, ?_, ?_⟩
      · rw [hwhole, List.cons_append, List.cons_append]
      · intro front' back' h'
        cases front' with
        | nil => exact absurd ⟨back', h'.symm⟩ hprefix
        | cons d front' => exact Nat.succ_le_succ (hleft front' back' (List.cons.inj h').2)
      · rw [removeFirst, if_neg hhere, hrest, List.cons_append]

variable {text part front back front' back' : String}

theorem occurs_iff_isInfix : Occurs part text ↔ part.toList <:+: text.toList := by
  constructor
  · rintro ⟨front, back, rfl⟩
    refine ⟨front.toList, back.toList, ?_⟩
    rw [String.toList_append, String.toList_append]
  · rintro ⟨front, back, hwhole⟩
    refine ⟨String.ofList front, String.ofList back, String.toList_inj.mp ?_⟩
    rw [String.toList_append, String.toList_append, String.toList_ofList, String.toList_ofList,
      hwhole]

namespace LeftmostCut

/-- **A text is cut at the leftmost occurrence of a part in one way.** -/
theorem unique (h : LeftmostCut text part front back) (h' : LeftmostCut text part front' back') :
    front = front' ∧ back = back' := by
  have hlength : front.length = front'.length :=
    Nat.le_antisymm (h.leftmost _ _ h'.whole) (h'.leftmost _ _ h.whole)
  have hl := congrArg String.toList (h.whole.symm.trans h'.whole)
  simp only [String.toList_append, List.append_assoc] at hl
  obtain ⟨hfront, hrest⟩ := List.append_inj hl (by rwa [String.length_toList, String.length_toList])
  exact ⟨String.toList_inj.mp hfront, String.toList_inj.mp (List.append_cancel_left hrest)⟩

end LeftmostCut

/-- what is removed is what stands between the two sides of the cut -/
theorem exists_leftmostCut (h : Occurs part text) :
    ∃ front back, LeftmostCut text part front back ∧
      String.ofList (removeFirst part.toList text.toList) = front ++ back := by
  obtain ⟨front, back, hwhole, hleft, hrest⟩ := removeFirst_of_isInfix (occurs_iff_isInfix.mp h)
  refine ⟨String.ofList front, String.ofList back, ⟨?_, ?_⟩, ?_⟩
  · rw [← String.toList_inj, String.toList_append, String.toList_append, String.toList_ofList,
      String.toList_ofList, hwhole]
  · intro front' back' h'
    have hl := congrArg String.toList h'
    rw [String.toList_append, String.toList_append] at hl
    rw [String.length_ofList]
    exact hleft _ _ hl
  · rw [hrest, String.ofList_append]

theorem ofList_removeFirst (h : LeftmostCut text part front back) :
    String.ofList (removeFirst part.toList text.toList) = front ++ back := by
  obtain ⟨front', back', hcut, hrest⟩ := exists_leftmostCut ⟨front, back, h.whole⟩
  obtain ⟨rfl, rfl⟩ := h.unique hcut
  exact hrest

/-! ### Bytes -/

/-- no character begins within the bytes of another, so a part occurs only where characters begin -/
theorem occurs_of_bytes {u v : ByteArray} (hne : part ≠ "")
    (h : text.toUTF8 = u ++ part.toUTF8 ++ v) :
    ∃ front back, text = front ++ part ++ back ∧ u = front.toUTF8 := by
  have hpart : 0 < part.toUTF8.size := by
    rw [Nat.pos_iff_ne_zero]
    exact fun hz => hne (String.utf8ByteSize_eq_zero_iff.mp hz)
  have hlt : u.size < text.toUTF8.size := by
    rw [h, ByteArray.size_append, ByteArray.size_append]
    omega
  have hfirst : (text.getUTF8Byte ⟨u.size⟩ hlt).IsUTF8FirstByte := by
    have hget : text.toUTF8[u.size] = part.toUTF8[0] := by
      simp only [h]
      rw [ByteArray.getElem_append_left (by rw [ByteArray.size_append]; omega),
        ByteArray.getElem_append_right (Nat.le_refl _)]
      simp only [Nat.sub_self]
    show text.toUTF8[u.size].IsUTF8FirstByte
    rw [hget]
    exact String.isUTF8FirstByte_getUTF8Byte_zero (h := hpart)
  obtain ⟨front, rest, rfl, hsize⟩ := String.Pos.Raw.isValid_iff_exists_append.mp
    (String.Pos.Raw.isValid_iff_isUTF8FirstByte.mpr (.inr ⟨hlt, hfirst⟩))
  have hbytes : front.toUTF8 ++ rest.toUTF8 = u ++ (part.toUTF8 ++ v) := by
    rw [← ByteArray.append_assoc, ← h]
    exact String.toByteArray_append.symm
  obtain rfl : front.toUTF8 = u :=
    ByteArray.append_inj_left hbytes (congrArg String.Pos.Raw.byteIdx hsize).symm
  have hrest : part.toList.utf8Encode ++ v = rest.toList.utf8Encode := by
    rw [← String.toByteArray_ofList, ← String.toByteArray_ofList, String.ofList_toList,
      String.ofList_toList]
    exact ((ByteArray.append_right_inj _).mp hbytes).symm
  obtain ⟨back, hback⟩ := List.isPrefix_of_utf8Encode_append_eq_utf8Encode v hrest
  refine ⟨front, String.ofList back, ?_, rfl⟩
  rw [← String.toList_inj, String.toList_append, String.toList_append, String.toList_append,
    String.toList_ofList, List.append_assoc, hback]

/-- the leftmost occurrence among the characters is the leftmost one among the bytes -/
theorem LeftmostCut.size_le (h : LeftmostCut text part front back) {u v : ByteArray}
    (hbytes : text.toUTF8 = u ++ part.toUTF8 ++ v) : front.toUTF8.size ≤ u.size := by
  by_cases hne : part = ""
  · subst hne
    have hzero : front.length = 0 := Nat.le_zero.mp (h.leftmost "" text (by simp))
    rw [String.length_eq_zero_iff.mp hzero]
    exact Nat.zero_le _
  · obtain ⟨front', back', hwhole, rfl⟩ := occurs_of_bytes hne hbytes
    have hfront : front.toList <+: text.toList := by
      rw [h.whole, String.toList_append, String.toList_append, List.append_assoc]
      exact List.prefix_append _ _
    have hfront' : front'.toList <+: text.toList := by
      rw [hwhole, String.toList_append, String.toList_append, List.append_assoc]
      exact List.prefix_append _ _
    have hlength : front.toList.length ≤ front'.toList.length := by
      rw [String.length_toList, String.length_toList]
      exact h.leftmost _ _ hwhole
    have hprefix := List.prefix_of_prefix_length_le hfront hfront' hlength
    obtain ⟨more, hmore⟩ := hprefix
    have heq : front' = front ++ String.ofList more := by
      rw [← String.toList_inj, String.toList_append, String.toList_ofList, hmore]
    rw [heq]
    show front.toByteArray.size ≤ (front ++ String.ofList more).toByteArray.size
    rw [String.toByteArray_append, ByteArray.size_append]
    exact Nat.le_add_right _ _

end Text

/-! ### Differences of values -/

namespace Value

theorem sub_text (a b : String) : apply .sub (.text a) (.text b) =
    .ok (.text (String.ofList (Text.removeFirst b.toList a.toList))) := rfl

theorem sub_of_leftmostCut {a b front back : String} (h : Text.LeftmostCut a b front back) :
    apply .sub (.text a) (.text b) = .ok (.text (front ++ back)) := by
  rw [sub_text, Text.ofList_removeFirst h]

theorem sub_of_not_occurs {a b : String} (h : ¬ Text.Occurs b a) :
    apply .sub (.text a) (.text b) = .ok (.text a) := by
  rw [Text.occurs_iff_isInfix] at h
  rw [sub_text, Text.removeFirst_of_not_isInfix h, String.ofList_toList]

/-- a text that stands in front is removed from there -/
theorem sub_front (x y : String) : apply .sub (.text (x ++ y)) (.text x) = .ok (.text y) := by
  have hcut : Text.LeftmostCut (x ++ y) x "" y := by
    refine ⟨?_, fun _ _ _ => Nat.zero_le _⟩
    rw [String.empty_append]
  rw [sub_of_leftmostCut hcut, String.empty_append]

theorem mul_text {n : Int32} (h : 0 ≤ n) (x : String) : apply .mul (.text x) (.int n) =
    .ok (.text (String.ofList (List.replicate n.toInt.toNat x.toList).flatten)) := by
  show textArithmetic .mul (.text x) (.int n) = _
  rw [textArithmetic, if_neg (Int32.not_lt.mpr h), Text.repeated_eq_flatten]

theorem ofList_flatten_succ (x : String) (k : Nat) :
    String.ofList (List.replicate (k + 1) x.toList).flatten =
      x ++ String.ofList (List.replicate k x.toList).flatten := by
  rw [List.replicate_succ, List.flatten_cons, String.ofList_append, String.ofList_toList]

/-- **The difference of two texts is the first one without the leftmost occurrence of the second**, which
may overlap others and is leftmost also among the bytes.  A text that is removed from itself and a text
behind it leaves that text, and from a repetition it takes one turn. -/
theorem difference_cuts_leftmost (a b x y : String) :
    (Text.Occurs b a → ∃! cut : String × String, Text.LeftmostCut a b cut.1 cut.2) ∧
    (∀ front back, Text.LeftmostCut a b front back →
      apply .sub (.text a) (.text b) = .ok (.text (front ++ back)) ∧
      ∀ u v, a.toUTF8 = u ++ b.toUTF8 ++ v → front.toUTF8.size ≤ u.size) ∧
    (¬ Text.Occurs b a → apply .sub (.text a) (.text b) = .ok (.text a)) ∧
    (∃ sum, apply .add (.text x) (.text y) = .ok sum ∧
      apply .sub sum (.text x) = .ok (.text y)) ∧
    (∀ n : Int32, 1 ≤ n → ∃ all rest, apply .mul (.text x) (.int n) = .ok all ∧
      apply .mul (.text x) (.int (n - 1)) = .ok rest ∧ apply .sub all (.text x) = .ok rest) := by
  refine ⟨fun h => ?_, fun front back h => ⟨sub_of_leftmostCut h, fun u v => h.size_le⟩,
    sub_of_not_occurs, ⟨_, rfl, sub_front x y⟩, fun n hn => ?_⟩
  · obtain ⟨front, back, hcut, -⟩ := Text.exists_leftmostCut h
    refine ⟨(front, back), hcut, fun cut hcut' => ?_⟩
    obtain ⟨hfront, hback⟩ := hcut'.unique hcut
    exact Prod.ext hfront hback
  · have hone : 1 ≤ n.toInt := Int32.le_iff_toInt_le.mp hn
    have hpred : (n - 1).toInt = n.toInt - 1 := by
      rw [Int32.toInt_sub]
      show (n.toInt - 1).bmod (2 ^ 32) = _
      have hlt := n.toInt_lt
      exact Int.bmod_eq_of_le (by omega) (by omega)
    have hzero : 0 ≤ n := Int32.le_iff_toInt_le.mpr (show (0 : Int) ≤ n.toInt by omega)
    have hzero' : 0 ≤ n - 1 := Int32.le_iff_toInt_le.mpr (show (0 : Int) ≤ (n - 1).toInt by omega)
    have hcount : n.toInt.toNat = (n - 1).toInt.toNat + 1 := by omega
    refine ⟨_, _, mul_text hzero x, mul_text hzero' x, ?_⟩
    rw [hcount, ofList_flatten_succ]
    exact sub_front x _

/-- the part occurs twice in this text, and the occurrences overlap -/
theorem leftmostCut_overlapping : Text.LeftmostCut "aéèéèé" "éèé" "a" "èé" := by
  refine ⟨by decide +kernel, fun front' back' h => ?_⟩
  rcases Nat.eq_zero_or_pos front'.length with hz | hpos
  · rw [String.length_eq_zero_iff.mp hz, String.empty_append] at h
    have hhead := congrArg (fun s => s.toList.head?) h
    rw [String.toList_append, List.head?_append] at hhead
    cases hhead
  · exact hpos

theorem not_occurs_accent : ¬ Text.Occurs "è" "éa" := by
  rw [Text.occurs_iff_isInfix]
  decide +kernel

theorem difference_cuts_leftmost_overlapping :
    Text.LeftmostCut "aéèéèé" "éèé" "a" "èé" ∧
      (∃! cut : String × String, Text.LeftmostCut "aéèéèé" "éèé" cut.1 cut.2) ∧
      apply .sub (.text "aéèéèé") (.text "éèé") = .ok (.text "aèé") ∧
      ¬ Text.Occurs "è" "éa" ∧ apply .sub (.text "éa") (.text "è") = .ok (.text "éa") ∧
      ∃ all rest, apply .mul (.text "é") (.int 2) = .ok all ∧
        apply .mul (.text "é") (.int (2 - 1)) = .ok rest ∧ apply .sub all (.text "é") = .ok rest :=
  have ⟨hunique, hcut, _, _, hrepeat⟩ := difference_cuts_leftmost "aéèéèé" "éèé" "é" "é"
  have ⟨_, _, habsent, _, _⟩ := difference_cuts_leftmost "éa" "è" "é" "é"
  ⟨leftmostCut_overlapping, hunique ⟨_, _, leftmostCut_overlapping.whole⟩,
    (hcut "a" "èé" leftmostCut_overlapping).1, not_occurs_accent, habsent not_occurs_accent,
    hrepeat 2 (by decide)⟩

end Value

end TinyScript
