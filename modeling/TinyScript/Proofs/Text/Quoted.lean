import TinyScript.Proofs.Text.Spans
import TinyScript.Text.Quoted

/-!
# Quoted texts are told apart

* `hex_injective`       no two numbers have the same hexadecimal digits
* `escaped_cases`       the three ways to write a character
* `escaped_append_inj`  a character and what follows it can be read back
* `quoted_injective`    no two texts have the same quoted form
-/

namespace TinyScript.Text

/-! ### Hexadecimal digits -/

theorem mem_hex {n : Nat} {c : Char} (h : c ∈ hex n) : ∃ d < 16, c = Nat.digitChar d := by
  induction n using Nat.strongRecOn with
  | ind n ih =>
    unfold hex at h
    rcases Nat.lt_or_ge n 16 with hn | hn
    · rw [Nat.toDigits_of_lt_base hn] at h
      exact ⟨n, hn, List.mem_singleton.mp h⟩
    · rw [Nat.toDigits_of_base_le (by decide) hn] at h
      rcases List.mem_append.mp h with h | h
      · exact ih (n / 16) (by omega) h
      · exact ⟨n % 16, by omega, List.mem_singleton.mp h⟩

theorem not_mem_hex {c : Char} (hc : ∀ d < 16, c ≠ Nat.digitChar d) (n : Nat) : c ∉ hex n := by
  intro h
  obtain ⟨d, hd, heq⟩ := mem_hex h
  exact hc d hd heq

theorem digitChar_injective : ∀ a < 16, ∀ b < 16, Nat.digitChar a = Nat.digitChar b → a = b := by
  decide

theorem hex_injective {m n : Nat} (h : hex m = hex n) : m = n := by
  unfold hex at h
  induction m using Nat.strongRecOn generalizing n with
  | ind m ih =>
    rcases Nat.lt_or_ge m 16 with hm | hm <;> rcases Nat.lt_or_ge n 16 with hn | hn
    · rw [Nat.toDigits_of_lt_base hm, Nat.toDigits_of_lt_base hn] at h
      exact digitChar_injective m hm n hn (List.singleton_inj.mp h)
    · have hlength := congrArg List.length h
      have hlong := Nat.length_toDigits_pos (b := 16) (n := n / 16)
      rw [Nat.toDigits_of_lt_base hm, Nat.toDigits_of_base_le (by decide) hn, List.length_append,
        List.length_singleton, List.length_singleton] at hlength
      omega
    · have hlength := congrArg List.length h
      have hlong := Nat.length_toDigits_pos (b := 16) (n := m / 16)
      rw [Nat.toDigits_of_lt_base hn, Nat.toDigits_of_base_le (by decide) hm, List.length_append,
        List.length_singleton, List.length_singleton] at hlength
      omega
    · rw [Nat.toDigits_of_base_le (by decide) hm, Nat.toDigits_of_base_le (by decide) hn] at h
      obtain ⟨hdigits, hlast⟩ := List.append_inj' h rfl
      have hquotient := ih (m / 16) (by omega) hdigits
      have hrest := digitChar_injective (m % 16) (by omega) (n % 16) (by omega)
        (List.singleton_inj.mp hlast)
      omega

/-! ### Characters -/

/-- A character is written by a letter behind a backslash, as itself, or by its number. -/
theorem escaped_cases (c : Char) :
    (∃ letter, shortEscape c = some letter ∧ escaped c = ['\\', letter]) ∨
    (c ≠ '"' ∧ c ≠ '\\' ∧ escaped c = [c]) ∨
    escaped c = '\\' :: 'u' :: '\x7b' :: (hex c.toNat ++ ['\x7d']) := by
  unfold escaped
  cases h : shortEscape c with
  | some letter => exact .inl ⟨letter, rfl, rfl⟩
  | none =>
    dsimp only
    split
    · refine .inr (.inl ⟨?_, ?_, rfl⟩)
      · rintro rfl
        cases h
      · rintro rfl
        cases h
    · exact .inr (.inr rfl)

/-- the characters that are written by a letter, with their letters -/
def shortEscapes : List (Char × Char) :=
  [('\x00', '0'), ('\t', 't'), ('\r', 'r'), ('\n', 'n'), ('"', '"'), ('\\', '\\')]

theorem mem_shortEscapes {c letter : Char} (h : shortEscape c = some letter) :
    (c, letter) ∈ shortEscapes := by
  unfold shortEscape at h
  split at h <;> cases h <;> decide

theorem shortEscape_injective {c d letter : Char} (hc : shortEscape c = some letter)
    (hd : shortEscape d = some letter) : c = d := by
  have hpairs : ∀ p ∈ shortEscapes, ∀ q ∈ shortEscapes, p.2 = q.2 → p.1 = q.1 := by decide
  exact hpairs _ (mem_shortEscapes hc) _ (mem_shortEscapes hd) rfl

/-- The letter `u` is left for the characters that are written by their number. -/
theorem shortEscape_ne_u {c : Char} : shortEscape c ≠ some 'u' := by
  have hletters : ∀ p ∈ shortEscapes, p.2 ≠ 'u' := by decide
  exact fun h => hletters _ (mem_shortEscapes h) rfl

theorem escaped_append_inj {c d : Char} {r s : List Char} (h : escaped c ++ r = escaped d ++ s) :
    c = d ∧ r = s := by
  rcases escaped_cases c with ⟨letter, hc, hce⟩ | ⟨-, hc, hce⟩ | hce <;>
    rcases escaped_cases d with ⟨letter', hd, hde⟩ | ⟨-, hd, hde⟩ | hde <;>
    rw [hce, hde] at h
  · obtain ⟨rfl, rfl⟩ : letter = letter' ∧ r = s := by simpa using h
    exact ⟨shortEscape_injective hc hd, rfl⟩
  · exact absurd (List.cons.inj h).1.symm hd
  · obtain rfl : letter = 'u' := (List.cons.inj (List.cons.inj h).2).1
    exact absurd hc shortEscape_ne_u
  · exact absurd (List.cons.inj h).1 hc
  · exact List.cons.inj h
  · exact absurd (List.cons.inj h).1 hc
  · obtain rfl : 'u' = letter' := (List.cons.inj (List.cons.inj h).2).1
    exact absurd hd shortEscape_ne_u
  · exact absurd (List.cons.inj h).1.symm hd
  · have hbrace (n : Nat) : ∀ x ∈ hex n, (x != '\x7d') = true := fun x hx =>
      bne_iff_ne.mpr fun heq => not_mem_hex (by decide) n (heq ▸ hx)
    have hdigits : hex c.toNat ++ '\x7d' :: r = hex d.toNat ++ '\x7d' :: s := by simpa using h
    obtain ⟨hhex, hrest⟩ := span_inj (hbrace _) (by simp) (hbrace _) (by simp) hdigits
    exact ⟨Char.toNat_inj.mp (hex_injective hhex), (List.cons.inj hrest).2⟩

theorem quotedChars_injective {cs ds : List Char} (h : quotedChars cs = quotedChars ds) : cs = ds := by
  have hne (c : Char) (cs : List Char) : quotedChars (c :: cs) ≠ [] := by
    rw [quotedChars_cons]
    rcases escaped_cases c with ⟨letter, -, hce⟩ | ⟨-, -, hce⟩ | hce <;> rw [hce] <;> exact nofun
  induction cs generalizing ds with
  | nil =>
    cases ds with
    | nil => rfl
    | cons d ds => exact absurd h.symm (hne d ds)
  | cons c cs ih =>
    cases ds with
    | nil => exact absurd h (hne c cs)
    | cons d ds =>
      rw [quotedChars_cons, quotedChars_cons] at h
      obtain ⟨rfl, hrest⟩ := escaped_append_inj h
      rw [ih hrest]

/-- No two texts have the same quoted form. -/
theorem quoted_injective {s t : String} (h : quoted s = quoted t) : s = t := by
  have hchars : quotedChars s.toList ++ ['"'] = quotedChars t.toList ++ ['"'] :=
    (List.cons.inj (String.ofList_injective h)).2
  exact String.toList_inj.mp (quotedChars_injective (List.append_cancel_right hchars))

end TinyScript.Text
