import TinyScript.Proofs.Json.Float

/-!
# The shape of a written document

What the readers need to know of the text that `Json.pretty` writes without reading the value in it.

* `delimited_membersText`    a number may stand in front of the rest of an object,
* `delimited_elementsText`   and in front of the rest of a list
* `pretty_head`              a value starts with a character that is no blank and closes no list
* `pretty_append`            what stands behind a value has no influence on how it is written
* `length_le_pretty`         what is written in front of a text does not make it shorter
-/

namespace TinyScript.Json

theorem delimited_newline (depth : Nat) (cs : List Char) : Delimited (newline depth ++ cs) :=
  delimited_cons rfl _

/-- the rest of an object, down to its closing bracket -/
def membersText (depth : Nat) (rest : List Char) (members : List (String × Json)) : List Char :=
  prettyMembers (depth + 1) (newline depth ++ '\x7d' :: rest) members

/-- the rest of a list, down to its closing bracket -/
def elementsText (depth : Nat) (rest : List Char) (js : List Json) : List Char :=
  prettyElements (depth + 1) (newline depth ++ ']' :: rest) js

theorem delimited_membersText (depth : Nat) (rest : List Char) (members : List (String × Json)) :
    Delimited (membersText depth rest members) := by
  cases members with
  | nil => exact delimited_newline depth _
  | cons member members => exact delimited_cons rfl _

theorem delimited_elementsText (depth : Nat) (rest : List Char) (js : List Json) :
    Delimited (elementsText depth rest js) := by
  cases js with
  | nil => exact delimited_newline depth _
  | cons j js => exact delimited_cons rfl _

/-! ### The first character -/

/-- the first character of a value is no blank and closes no list -/
theorem pretty_head (depth : Nat) (rest : List Char) (j : Json) :
    ∃ c cs, pretty depth rest j = c :: cs ∧ isBlank c = false ∧ c ≠ ']' := by
  have hnumber {c : Char} (h : startsNumber c = true) : isBlank c = false ∧ c ≠ ']' :=
    ⟨not_isBlank_of_startsNumber h, fun he => by rw [he] at h; cases h⟩
  cases j with
  | null => exact ⟨'n', _, rfl, rfl, by decide⟩
  | int n =>
    obtain ⟨c, cs, hcons, hc⟩ := (numeral_integerDigits n).exists_cons
    exact ⟨c, cs ++ rest, by rw [pretty, hcons]; rfl, hnumber hc⟩
  | float x =>
    rw [pretty]
    rcases float?_cases x with hx | hx
    · obtain ⟨c, cs, hcons, hc⟩ := hx.exists_cons
      exact ⟨c, cs ++ rest, by rw [hcons]; rfl, hnumber hc⟩
    · exact ⟨'n', _, by rw [hx]; rfl, rfl, by decide⟩
  | text s => exact ⟨'"', _, rfl, rfl, by decide⟩
  | array js => cases js <;> exact ⟨'[', _, rfl, rfl, by decide⟩
  | object members => cases members <;> exact ⟨'\x7b', _, rfl, rfl, by decide⟩

theorem skipBlanks_pretty (depth : Nat) (rest : List Char) (j : Json) :
    skipBlanks (pretty depth rest j) = pretty depth rest j := by
  obtain ⟨c, cs, hcons, hblank, -⟩ := pretty_head depth rest j
  rw [hcons, skipBlanks_of_not_blank hblank]

/-! ### What stands behind a value -/

mutual

theorem pretty_append (depth : Nat) (rest tail : List Char) :
    (j : Json) → pretty depth (rest ++ tail) j = pretty depth rest j ++ tail
  | .null => rfl
  | .int n | .float x | .text s => (List.append_assoc _ rest tail).symm
  | .array [] => rfl
  | .array (j :: js) => by
    have hrest := prettyElements_append (depth + 1) (newline depth ++ ']' :: rest) tail js
    rw [List.append_assoc, List.cons_append] at hrest
    rw [pretty, pretty, hrest, pretty_append (depth + 1) _ tail j, List.append_assoc]
  | .object [] => rfl
  | .object ((name, j) :: members) => by
    have hrest := prettyMembers_append (depth + 1) (newline depth ++ '\x7d' :: rest) tail members
    rw [List.append_assoc, List.cons_append] at hrest
    rw [pretty, pretty, hrest, pretty_append (depth + 1) _ tail j]
    exact (List.append_assoc _ (':' :: ' ' :: _) tail).symm

theorem prettyElements_append (depth : Nat) (rest tail : List Char) : (js : List Json) →
    prettyElements depth (rest ++ tail) js = prettyElements depth rest js ++ tail
  | [] => rfl
  | j :: js => by
    rw [prettyElements, prettyElements, prettyElements_append depth rest tail js,
      pretty_append depth _ tail j, List.append_assoc]

theorem prettyMembers_append (depth : Nat) (rest tail : List Char) :
    (members : List (String × Json)) →
      prettyMembers depth (rest ++ tail) members = prettyMembers depth rest members ++ tail
  | [] => rfl
  | (name, j) :: members => by
    rw [prettyMembers, prettyMembers, prettyMembers_append depth rest tail members,
      pretty_append depth _ tail j]
    exact (List.append_assoc _ (':' :: ' ' :: _) tail).symm

end

/-! ### The length -/

mutual

theorem length_le_pretty (depth : Nat) (rest : List Char) :
    (j : Json) → rest.length ≤ (pretty depth rest j).length
  | .null => by simp [pretty]; omega
  | .int n | .float x | .text s => by simp [pretty]
  | .array [] => by simp [pretty]; omega
  | .array (j :: js) => by
    have hvalue := length_le_pretty (depth + 1) (elementsText depth rest js) j
    have hrest := length_le_prettyElements (depth + 1) (newline depth ++ ']' :: rest) js
    simp only [pretty, elementsText, List.length_append, List.length_cons] at *
    omega
  | .object [] => by simp [pretty]; omega
  | .object ((name, j) :: members) => by
    have hvalue := length_le_pretty (depth + 1) (membersText depth rest members) j
    have hrest := length_le_prettyMembers (depth + 1) (newline depth ++ '\x7d' :: rest) members
    simp only [pretty, membersText, List.length_append, List.length_cons] at *
    omega

theorem length_le_prettyElements (depth : Nat) (rest : List Char) :
    (js : List Json) → rest.length + js.length ≤ (prettyElements depth rest js).length
  | [] => Nat.le_refl _
  | j :: js => by
    have hvalue := length_le_pretty depth (prettyElements depth rest js) j
    have hrest := length_le_prettyElements depth rest js
    simp only [prettyElements, List.length_append, List.length_cons]
    omega

theorem length_le_prettyMembers (depth : Nat) (rest : List Char) :
    (members : List (String × Json)) →
      rest.length + members.length ≤ (prettyMembers depth rest members).length
  | [] => Nat.le_refl _
  | (name, j) :: members => by
    have hvalue := length_le_pretty depth (prettyMembers depth rest members) j
    have hrest := length_le_prettyMembers depth rest members
    simp only [prettyMembers, List.length_append, List.length_cons]
    omega

end

end TinyScript.Json
