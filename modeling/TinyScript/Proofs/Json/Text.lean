import TinyScript.Json
import TinyScript.Json.Scalar

/-!
# Blanks and texts of a document

The readers pass over the indentation that the writer puts in front of each line, and they turn the
escapes of a text back into the characters that the writer could not leave as they were.

* `skipBlanks_newline`     the start of a line is passed over
* `textChars_escaped`      one character, however it is written
* `textBody_quoted`        a whole text, in front of whatever follows it
-/

namespace TinyScript.Json

/-! ### Blanks -/

theorem skipBlanks_append {blanks : List Char} (h : ∀ c ∈ blanks, isBlank c = true)
    (cs : List Char) : skipBlanks (blanks ++ cs) = skipBlanks cs :=
  List.dropWhile_append_of_pos h

theorem skipBlanks_of_not_blank {c : Char} (h : isBlank c = false) (cs : List Char) :
    skipBlanks (c :: cs) = c :: cs :=
  List.dropWhile_cons_of_neg (by simp [h])

theorem isBlank_of_mem_newline {depth : Nat} {c : Char} (h : c ∈ newline depth) :
    isBlank c = true := by
  rcases List.mem_cons.mp h with rfl | h
  · rfl
  · rw [List.eq_of_mem_replicate h]
    rfl

theorem skipBlanks_newline (depth : Nat) (cs : List Char) :
    skipBlanks (newline depth ++ cs) = skipBlanks cs :=
  skipBlanks_append (fun _ => isBlank_of_mem_newline) cs

/-! ### Texts -/

/-- The two digits of a control character are read back as its number. -/
theorem hex4?_hexByte : ∀ n < 0x20, hex4? '0' '0' (Nat.digitChar (n / 16 % 16))
    (Nat.digitChar (n % 16)) = some n := by
  decide +kernel

theorem textChars_control {c : Char} (h : c.toNat < 0x20) (rest : List Char) :
    textChars none ('\\' :: 'u' :: hexByte c.toNat ++ rest) =
      (textChars none rest).map fun (s, rest) => (c :: s, rest) := by
  have hlow : isLowSurrogate c.toNat = false := by simp [isLowSurrogate]; omega
  have hhigh : isHighSurrogate c.toNat = false := by simp [isHighSurrogate]; omega
  simp [hexByte, textChars, hex4?_hexByte c.toNat h, hlow, hhigh]

/-- a character that is written as it is -/
theorem textChars_plain {c : Char} (hquote : c ≠ '"') (hslash : c ≠ '\\') (h : ¬ c.toNat < 0x20)
    (rest : List Char) :
    textChars none (c :: rest) = (textChars none rest).map fun (s, rest) => (c :: s, rest) := by
  rw [textChars]
  · rw [if_neg h]
  all_goals simp [hquote, hslash]

theorem textChars_escaped (c : Char) (rest : List Char) :
    textChars none (escaped c ++ rest) =
      (textChars none rest).map fun (s, rest) => (c :: s, rest) := by
  unfold escaped
  split
  · next letter hl =>
    unfold shortEscape at hl
    split at hl <;> cases hl <;> rfl
  · next hs =>
    split
    · next h => exact textChars_control h rest
    · next h =>
      refine textChars_plain ?_ ?_ h rest
      · rintro rfl
        cases hs
      · rintro rfl
        cases hs

theorem textChars_flatMap (cs rest : List Char) :
    textChars none (cs.flatMap escaped ++ '"' :: rest) = .ok (cs, rest) := by
  induction cs with
  | nil => rfl
  | cons c cs ih =>
    rw [List.flatMap_cons, List.append_assoc, textChars_escaped, ih]
    rfl

/-- **A text is read back as it was**, behind its opening quote and in front of any rest. -/
theorem textBody_quoted (s : String) (rest : List Char) :
    textBody (s.toList.flatMap escaped ++ '"' :: rest) = .ok (s, rest) := by
  rw [textBody, textChars_flatMap]
  show Except.ok (String.ofList s.toList, rest) = _
  rw [String.ofList_toList]

end TinyScript.Json
