import Mathlib.Data.Bool.AllAny
import TinyScript.Proofs.Lexical.Spelling
import TinyScript.Proofs.Text.Spans

/-!
# Words are read

* `Token.Spelled.reads`   the word of a token is read as the token, in front of whatever does not
                          make it longer
* `Offends.refused`       what offends is refused for its reason
* `word_or_offence`       where no gap starts, there is a word or an offence
-/

namespace TinyScript

open Token

/-! ### Signs -/

namespace Scan

/-- the characters that start an item which is neither a word of letters nor a number -/
def signs : List Char :=
  ['(', ')', '\x7b', '\x7d', ';', '+', '-', '*', '/', '=', '!', '<', '>', '&', '|', '"']

theorem item_of_not_sign {c : Char} (h : c ∉ signs) (cs : List Char) :
    item c cs =
      if c.isDigit then number (c :: cs)
      else if isLetter c then
        .ok (word (String.ofList (c :: cs.takeWhile isWordChar)), cs.dropWhile isWordChar)
      else .error (.unexpectedChar c) := by
  rw [← startsWord_eq, ← funext continuesWord_eq]
  unfold item
  split
  case h_17 => rfl
  all_goals exact absurd (by decide) h

theorem isWordChar_of_isDigit {c : Char} (h : c.isDigit = true) : isWordChar c = true := by
  rw [← continuesWord_eq]
  simp [continuesWord, Char.isAlphanum, h]

theorem isWordChar_of_isLetter {c : Char} (h : isLetter c = true) : isWordChar c = true := by
  rw [isWordChar, h]
  rfl

theorem lt_of_isWordChar {c : Char} (h : isWordChar c = true) : c.toNat < 128 := by
  have hle {d : Char} (hd : d.toNat < 128) (hc : c ≤ d) : c.toNat < 128 :=
    Nat.lt_of_le_of_lt (UInt32.le_iff_toNat_le.mp hc) hd
  simp only [isWordChar, isLetter, Bool.or_eq_true, Bool.and_eq_true, decide_eq_true_eq,
    beq_iff_eq] at h
  rcases h with ((⟨-, h⟩ | ⟨-, h⟩) | rfl) | ⟨-, h⟩
  · exact hle (by decide) h
  · exact hle (by decide) h
  · decide
  · exact hle (by decide) h

/-- what holds of the letters, the digits and `_` is decided letter by letter -/
theorem of_isWordChar {P : Char → Prop}
    (hP : ∀ n < 128, isWordChar (Char.ofNat n) = true → P (Char.ofNat n)) {c : Char}
    (h : isWordChar c = true) : P c := by
  have hc := hP c.toNat (lt_of_isWordChar h)
  rw [Char.ofNat_toNat] at hc
  exact hc h

theorem not_isDigit_of_isLetter {c : Char} (h : isLetter c = true) : c.isDigit = false :=
  of_isWordChar (P := fun c => isLetter c = true → c.isDigit = false) (by decide)
    (isWordChar_of_isLetter h) h

theorem not_sign_of_isWordChar {c : Char} (h : isWordChar c = true) : c ∉ signs := by
  intro hc
  have hsigns : ∀ d ∈ signs, isWordChar d = false := List.all_iff_forall_prop.mp (by decide)
  rw [hsigns c hc] at h
  cases h

theorem count_newline_letters {cs : List Char} (h : ∀ d ∈ cs, isWordChar d = true) :
    cs.count '\n' = 0 := by
  rw [List.count_eq_zero]
  intro hn
  exact absurd (h _ hn) (by decide)

theorem count_newline_digits {cs : List Char} (h : ∀ d ∈ cs, d.isDigit = true) :
    cs.count '\n' = 0 :=
  count_newline_letters fun d hd => isWordChar_of_isDigit (h d hd)

theorem startsItem_of_isWordChar {c : Char} (h : isWordChar c = true) : StartsItem c :=
  of_isWordChar (P := StartsItem) (by unfold StartsItem; decide) h

theorem startsItem_of_sign {c : Char} (h : c ∈ signs) : StartsItem c := by
  have hsigns : ∀ d ∈ signs, isSpace d = false ∧ d ≠ '#' :=
    List.all_iff_forall_prop.mp (by decide)
  exact hsigns c h

end Scan

theorem Text.isWordChar_of_isName {s : String} (h : Text.isName s = true) :
    ∀ c ∈ s.toList, isWordChar c = true :=
  List.all_eq_true.mp (Bool.and_eq_true_iff.mp h).2

namespace Scan

/-! ### Letters and digits -/

variable {rest : List Char}

theorem item_letters {c : Char} {cs : List Char} (hc : isLetter c = true)
    (hcs : ∀ d ∈ cs, isWordChar d = true) (hrest : ∀ d ∈ rest.head?, isWordChar d = false) :
    item c (cs ++ rest) = .ok (word (String.ofList (c :: cs)), rest) := by
  rw [item_of_not_sign (not_sign_of_isWordChar (isWordChar_of_isLetter hc)),
    if_neg (by simp [not_isDigit_of_isLetter hc]), if_pos hc, takeWhile_span hcs hrest,
    dropWhile_span hcs hrest]

theorem word_spelling (k : Keyword) : word k.spelling = .keyword k := by
  rw [word, Keyword.ofSpelling?_spelling]

theorem word_of_no_keyword {name : String} (h : ∀ k : Keyword, k.spelling ≠ name) :
    word name = .ident name := by
  have hnone : Keyword.ofSpelling? name = none := by
    rw [Keyword.ofSpelling?, List.find?_eq_none]
    intro k _
    simpa using h k
  rw [word, hnone]

theorem item_digits {c : Char} (hc : c.isDigit = true) (cs : List Char) :
    item c cs = number (c :: cs) := by
  rw [item_of_not_sign (not_sign_of_isWordChar (isWordChar_of_isDigit hc)), if_pos hc]

theorem number_whole {digits : List Char} (hd : ∀ d ∈ digits, d.isDigit = true)
    (hrest : ∀ d ∈ rest.head?, (d.isDigit || d == '.') = false) :
    number (digits ++ rest) = (wholeNumber digits).map (·, rest) := by
  have hdigit : ∀ d ∈ rest.head?, d.isDigit = false := fun d hd =>
    (Bool.or_eq_false_iff.mp (hrest d hd)).1
  unfold number
  rw [takeWhile_span hd hdigit, dropWhile_span hd hdigit]
  cases rest with
  | nil => rfl
  | cons d rest =>
    have hpoint : d ≠ '.' := fun h => by simpa [h] using hrest d rfl
    split
    · next h => exact absurd (List.cons.inj h).1 hpoint
    · rfl

theorem number_point {digits fraction : List Char} (hd : ∀ d ∈ digits, d.isDigit = true)
    (hf : ∀ d ∈ fraction, d.isDigit = true) (hrest : ∀ d ∈ rest.head?, d.isDigit = false) :
    number (digits ++ '.' :: (fraction ++ rest)) =
      if fraction.isEmpty then .error (.unexpectedChar '.')
      else .ok (fractionalNumber digits fraction, rest) := by
  have hpoint : ∀ d ∈ ('.' :: (fraction ++ rest)).head?, d.isDigit = false := by
    intro d h
    obtain rfl := Option.some.inj h
    rfl
  unfold number
  rw [takeWhile_span hd hpoint, dropWhile_span hd hpoint]
  show (if ((fraction ++ rest).takeWhile Char.isDigit).isEmpty then _ else
    Except.ok (fractionalNumber digits ((fraction ++ rest).takeWhile Char.isDigit),
      (fraction ++ rest).dropWhile Char.isDigit)) = _
  rw [takeWhile_span hf hrest, dropWhile_span hf hrest]

theorem wholeNumber_of_le {digits : List Char} (h : ofDigits digits ≤ 2147483647) :
    wholeNumber digits = .ok (.int (Int32.ofInt (ofDigits digits))) :=
  if_pos (Nat.lt_succ_of_le h)

theorem wholeNumber_of_lt {digits : List Char} (h : 2147483647 < ofDigits digits) :
    wholeNumber digits = .error (.numberOutOfRange (String.ofList digits)) :=
  if_neg (Nat.not_lt_of_le h)

/-! ### Texts and operators -/

theorem ne_quote {cs : List Char} (h : '"' ∉ cs) : ∀ d ∈ cs, (d != '"') = true := by
  intro d hd
  rw [bne_iff_ne]
  rintro rfl
  exact h hd

theorem textLiteral_closed {cs : List Char} (h : '"' ∉ cs) :
    textLiteral (cs ++ '"' :: rest) = .ok (.text (String.ofList cs), rest) := by
  have hquote : ∀ d ∈ ('"' :: rest).head?, (d != '"') = false := by
    intro d hd
    obtain rfl := Option.some.inj hd
    rfl
  unfold textLiteral
  rw [takeWhile_span (ne_quote h) hquote, dropWhile_span (ne_quote h) hquote]

theorem textLiteral_open {cs : List Char} (h : '"' ∉ cs) :
    textLiteral cs = .error .unterminatedText := by
  have hdrop : cs.dropWhile (· != '"') = [] := by
    rw [← List.append_nil cs]
    exact dropWhile_span (ne_quote h) fun _ hd => nomatch hd
  rw [textLiteral, hdrop]

theorem orEqual_single {single : Token} (hsingle : ∀ c, single.goesOn c = (c == '='))
    (h : single.EndsBefore rest) (paired : Token) : orEqual single paired rest = (single, rest) := by
  cases rest with
  | nil => rfl
  | cons c cs =>
    have hc : c ≠ '=' := by simpa [hsingle] using h c rfl
    unfold orEqual
    split
    · next he => exact absurd (List.cons.inj he).1 hc
    · rfl

end Scan

/-! ### Words -/

/-- The word starts an item and is read as the token. -/
def Token.ReadsAs (t : Token) (word : List Char) : Prop :=
  ∃ c cs, word = c :: cs ∧ StartsItem c ∧
    ∀ rest, t.EndsBefore rest → Scan.item c (cs ++ rest) = .ok (t, rest)

namespace Token

open Scan

theorem readsAs_keyword (k : Keyword) : (Token.keyword k).ReadsAs k.spelling.toList := by
  obtain ⟨c, cs, hword, hc, hcs⟩ : ∃ c cs, k.spelling.toList = c :: cs ∧ isLetter c = true ∧
      ∀ d ∈ cs, isWordChar d = true := by
    cases k <;> exact ⟨_, _, rfl, by decide, List.all_eq_true.mp (by decide)⟩
  refine ⟨c, cs, hword, startsItem_of_isWordChar (isWordChar_of_isLetter hc), ?_⟩
  intro rest hends
  rw [item_letters hc hcs hends, ← hword, String.ofList_toList, word_spelling]

theorem readsAs_mark (m : Mark) : (Token.mark m).ReadsAs [m.char] := by
  have hstarts : StartsItem m.char := by
    apply startsItem_of_sign
    cases m <;> decide
  refine ⟨m.char, [], rfl, hstarts, fun rest hends => ?_⟩
  cases m with
  | assign => exact congrArg Except.ok (orEqual_single (fun _ => rfl) hends _)
  | bang => exact congrArg Except.ok (orEqual_single (fun _ => rfl) hends _)
  | _ => rfl

theorem readsAs_op (o : Operator) : (Token.op o).ReadsAs o.symbol.toList := by
  obtain ⟨c, cs, hword, hc⟩ : ∃ c cs, o.symbol.toList = c :: cs ∧ c ∈ signs := by
    cases o <;> exact ⟨_, _, rfl, by decide⟩
  refine ⟨c, cs, hword, startsItem_of_sign hc, fun rest hends => ?_⟩
  cases o with
  | lt =>
    cases hword
    exact congrArg Except.ok (orEqual_single (fun _ => rfl) hends _)
  | gt =>
    cases hword
    exact congrArg Except.ok (orEqual_single (fun _ => rfl) hends _)
  | _ =>
    cases hword
    rfl

theorem Spelled.reads {t : Token} {word : List Char} (h : t.Spelled word) : t.ReadsAs word := by
  cases h with
  | @ident c cs hc hcs hk =>
    refine ⟨c, cs, rfl, startsItem_of_isWordChar (isWordChar_of_isLetter hc), ?_⟩
    intro rest hends
    rw [item_letters hc hcs hends, word_of_no_keyword hk]
  | keyword k => exact readsAs_keyword k
  | @int digits hne hd hfits =>
    obtain ⟨c, cs, rfl⟩ := List.exists_cons_of_ne_nil hne
    have hc := hd c List.mem_cons_self
    refine ⟨c, cs, rfl, startsItem_of_isWordChar (isWordChar_of_isDigit hc), ?_⟩
    intro rest hends
    rw [item_digits hc, ← List.cons_append, number_whole hd hends, wholeNumber_of_le hfits]
    rfl
  | @float whole fraction hw hwd hf hfd =>
    obtain ⟨c, cs, rfl⟩ := List.exists_cons_of_ne_nil hw
    have hc := hwd c List.mem_cons_self
    refine ⟨c, cs ++ '.' :: fraction, rfl,
      startsItem_of_isWordChar (isWordChar_of_isDigit hc), ?_⟩
    intro rest hends
    have hnumber := number_point hwd hfd hends
    rw [if_neg (by simpa using hf)] at hnumber
    rw [item_digits hc, List.append_assoc, List.cons_append]
    exact hnumber
  | @text cs hcs =>
    refine ⟨'"', cs ++ ['"'], rfl, startsItem_of_sign (by decide), fun rest _ => ?_⟩
    rw [List.append_assoc]
    exact textLiteral_closed hcs
  | mark m => exact readsAs_mark m
  | op o => exact readsAs_op o

/-- the newlines of a word are those that its token counts -/
theorem Spelled.count_newlines {t : Token} {word : List Char} (h : t.Spelled word) :
    word.count '\n' = t.lineBreaks := by
  cases h with
  | ident hc hcs hk =>
    exact count_newline_letters (List.forall_mem_cons.mpr ⟨isWordChar_of_isLetter hc, hcs⟩)
  | keyword k => cases k <;> decide
  | int hne hd hfits => exact count_newline_digits hd
  | float hw hwd hf hfd =>
    rw [List.count_append, List.count_cons, count_newline_digits hwd, count_newline_digits hfd]
    rfl
  | @text cs hcs =>
    rw [lineBreaks, String.toList_ofList]
    simp
  | mark m => cases m <;> decide
  | op o => cases o <;> decide

/-- what starts with a letter and goes on with letters and digits is a keyword or an identifier -/
theorem spelled_letters {c : Char} {cs : List Char} (hc : isLetter c = true)
    (hcs : ∀ d ∈ cs, isWordChar d = true) :
    ∃ t : Token, t.Spelled (c :: cs) ∧ ∀ d, t.goesOn d = isWordChar d := by
  by_cases hk : ∃ k : Keyword, k.spelling = String.ofList (c :: cs)
  · obtain ⟨k, hk⟩ := hk
    have hspelled := Spelled.keyword k
    rw [hk, String.toList_ofList] at hspelled
    exact ⟨_, hspelled, fun _ => rfl⟩
  · exact ⟨_, .ident hc hcs fun k h => hk ⟨k, h⟩, fun _ => rfl⟩

/-- the characters with which words start -/
theorem starts_word_iff {c : Char} :
    (∃ (t : Token) (w : List Char), t.Spelled (c :: w)) ↔
      c ∈ signs ∨ c.isDigit = true ∨ isLetter c = true := by
  constructor
  · rintro ⟨t, w, h⟩
    generalize hword : c :: w = word at h
    cases h with
    | ident hc hcs hk =>
      obtain rfl := (List.cons.inj hword).1
      exact .inr (.inr hc)
    | keyword k =>
      have hletters : k.spelling.toList.head?.all isLetter = true := by
        cases k <;> decide
      rw [← hword] at hletters
      exact .inr (.inr hletters)
    | int hne hd hfits => exact .inr (.inl (hd c (hword ▸ List.mem_cons_self)))
    | @float whole fraction hw hwd hf hfd =>
      obtain ⟨d, ds, rfl⟩ := List.exists_cons_of_ne_nil hw
      obtain rfl := (List.cons.inj hword).1
      exact .inr (.inl (hwd c List.mem_cons_self))
    | text hcs =>
      obtain rfl := (List.cons.inj hword).1
      exact .inl (by decide)
    | mark m =>
      obtain rfl := (List.cons.inj hword).1
      refine .inl ?_
      cases m <;> decide
    | op o =>
      have hsigns : o.symbol.toList.head?.all (· ∈ signs) = true := by
        cases o <;> decide
      rw [← hword] at hsigns
      exact .inl (of_decide_eq_true hsigns)
  · rintro (hc | hc | hc)
    · have hsigns : ∀ d ∈ signs, d ∈ [Mark.leftParen, .rightParen, .leftBrace, .rightBrace,
          .semicolon, .assign, .bang].map Mark.char ∨
          some d ∈ Operator.all.map (fun o => o.symbol.toList.head?) ∨ d = '"' :=
        List.all_iff_forall_prop.mp (by decide)
      rcases hsigns c hc with hm | ho | rfl
      · obtain ⟨m, -, rfl⟩ := List.mem_map.mp hm
        exact ⟨_, [], .mark m⟩
      · obtain ⟨o, -, ho⟩ := List.mem_map.mp ho
        obtain ⟨w, hw⟩ : ∃ w, o.symbol.toList = c :: w := List.head?_eq_some_iff.mp ho
        exact ⟨.op o, w, hw ▸ .op o⟩
      · exact ⟨.text "", ['"'], .text List.not_mem_nil⟩
    · have hdigit : ∀ d ∈ [c], d.isDigit = true := List.forall_mem_singleton.mpr hc
      have hzero : ∀ d ∈ ['0'], d.isDigit = true := List.forall_mem_singleton.mpr rfl
      exact ⟨_, _, .float (List.cons_ne_nil c []) hdigit (List.cons_ne_nil '0' []) hzero⟩
    · obtain ⟨t, ht, -⟩ := spelled_letters hc (List.forall_mem_nil _)
      exact ⟨t, [], ht⟩

end Token

open Scan

/-! ### Offences -/

/-- What offends starts an item and is refused; no newline is in front of the offending character. -/
theorem Offends.refused {lead rest : List Char} {cause : SourceError.Cause}
    (h : Offends lead rest cause) :
    (∃ c cs, lead ++ rest = c :: cs ∧ StartsItem c ∧ item c cs = .error cause) ∧
      lead.count '\n' = 0 := by
  cases h with
  | @stray c cs hc h =>
    obtain ⟨hsign, hdigit, hletter⟩ : c ∉ signs ∧ c.isDigit ≠ true ∧ isLetter c ≠ true := by
      have hnot : ¬ (c ∈ signs ∨ c.isDigit = true ∨ isLetter c = true) := fun hstart => by
        obtain ⟨t, w, hw⟩ := starts_word_iff.mpr hstart
        exact h t w hw
      simpa [not_or] using hnot
    refine ⟨⟨c, cs, rfl, hc, ?_⟩, rfl⟩
    rw [item_of_not_sign hsign, if_neg hdigit, if_neg hletter]
  | @single c cs hc h =>
    have hrefused {o : Operator} : doubled c o cs = .error (.unexpectedChar c) := by
      cases cs with
      | nil => rfl
      | cons d cs =>
        rw [doubled, if_neg fun he => h (congrArg some he)]
    refine ⟨⟨c, cs, rfl, ?_, ?_⟩, rfl⟩
    · rcases hc with rfl | rfl <;> exact startsItem_of_sign (by decide)
    · rcases hc with rfl | rfl <;> exact hrefused
  | @point _ cs hne hd h =>
    obtain ⟨c, digits, rfl⟩ := List.exists_cons_of_ne_nil hne
    have hc := hd c List.mem_cons_self
    refine ⟨⟨c, digits ++ '.' :: cs, rfl,
      startsItem_of_isWordChar (isWordChar_of_isDigit hc), ?_⟩, count_newline_digits hd⟩
    rw [item_digits hc]
    exact number_point hd (List.forall_mem_nil _) h
  | @unterminated cs h =>
    exact ⟨⟨'"', cs, rfl, startsItem_of_sign (by decide), textLiteral_open h⟩, rfl⟩
  | @tooLarge digits cs hd hlarge h =>
    cases digits with
    | nil => exact absurd hlarge (by decide)
    | cons c digits =>
      have hc := hd c List.mem_cons_self
      refine ⟨⟨c, digits ++ cs, rfl,
        startsItem_of_isWordChar (isWordChar_of_isDigit hc), ?_⟩, rfl⟩
      rw [item_digits hc, ← List.cons_append, number_whole hd h, wholeNumber_of_lt hlarge]
      rfl

/-! ### There is a word or an offence -/

/-- a text with a word at its start that cannot be longer, or with an offence -/
inductive Itemized (text : List Char) : Prop where
  | word {t : Token} {word rest : List Char} (h : t.Spelled word) (hends : t.EndsBefore rest)
      (htext : text = word ++ rest) : Itemized text
  | offence {lead rest : List Char} {cause : SourceError.Cause} (h : Offends lead rest cause)
      (htext : text = lead ++ rest) : Itemized text

theorem Itemized.of_sign {t : Token} {word : List Char} (h : t.Spelled word)
    (hnever : ∀ c, t.goesOn c = false) (rest : List Char) : Itemized (word ++ rest) :=
  .word h (fun c _ => hnever c) rfl

/-- An operator of one character that is another one with `=` behind it. -/
theorem itemized_orEqual {single paired : Token} {c : Char} (hs : single.Spelled [c])
    (hp : paired.Spelled [c, '=']) (hsingle : ∀ d, single.goesOn d = (d == '='))
    (hpaired : ∀ d, paired.goesOn d = false) (cs : List Char) : Itemized (c :: cs) := by
  by_cases h : cs.head? = some '='
  · obtain ⟨rest, rfl⟩ := List.head?_eq_some_iff.mp h
    exact .of_sign hp hpaired rest
  · refine .word hs (fun d hd => ?_) rfl
    rw [hsingle]
    exact beq_false_of_ne fun he => h (he ▸ hd)

theorem itemized_doubled {o : Operator} {c : Char} (hc : c = '&' ∨ c = '|')
    (ho : (Token.op o).Spelled [c, c]) (hnever : ∀ d, (Token.op o).goesOn d = false)
    (cs : List Char) : Itemized (c :: cs) := by
  by_cases h : cs.head? = some c
  · obtain ⟨rest, rfl⟩ := List.head?_eq_some_iff.mp h
    exact .of_sign ho hnever rest
  · exact .offence (.single hc h) rfl

theorem itemized_quote (cs : List Char) : Itemized ('"' :: cs) := by
  obtain ⟨body, rest, rfl, hbody, hrest⟩ := exists_span (· != '"') cs
  have hfree : '"' ∉ body := fun h => by simpa using hbody _ h
  cases rest with
  | nil =>
    rw [List.append_nil]
    exact .offence (.unterminated hfree) rfl
  | cons d rest =>
    obtain rfl : d = '"' := by simpa using hrest d rfl
    have hclosed := Itemized.of_sign (.text hfree) (fun _ => rfl) rest
    simpa using hclosed

theorem itemized_number {c : Char} (hc : c.isDigit = true) (cs : List Char) :
    Itemized (c :: cs) := by
  obtain ⟨digits, rest, hcs, hdigits, hrest⟩ := exists_span Char.isDigit (c :: cs)
  have hne : digits ≠ [] := by
    rintro rfl
    rw [List.nil_append] at hcs
    rw [hrest c (by rw [← hcs]; rfl)] at hc
    cases hc
  rw [hcs]
  by_cases hpoint : rest.head? = some '.'
  · obtain ⟨behind, rfl⟩ := List.head?_eq_some_iff.mp hpoint
    obtain ⟨fraction, rest, rfl, hfraction, hbehind⟩ := exists_span Char.isDigit behind
    by_cases hf : fraction = []
    · subst hf
      have hoffends : Offends digits ('.' :: rest) (.unexpectedChar '.') :=
        .point hne hdigits hbehind
      exact .offence hoffends rfl
    · exact .word (.float hne hdigits hf hfraction) hbehind (by simp)
  · have hends : ∀ d ∈ rest.head?, (d.isDigit || d == '.') = false := by
      intro d hd
      rw [hrest d hd, Bool.false_or]
      exact beq_false_of_ne fun he => hpoint (he ▸ hd)
    by_cases hlarge : ofDigits digits ≤ 2147483647
    · exact .word (.int hne hdigits hlarge) hends rfl
    · exact .offence (.tooLarge hdigits (Nat.lt_of_not_le hlarge) hends) rfl

theorem itemized_sign {c : Char} (hc : c ∈ signs) (cs : List Char) : Itemized (c :: cs) := by
  simp only [signs, List.mem_cons, List.not_mem_nil, or_false] at hc
  rcases hc with rfl | rfl | rfl | rfl | rfl | rfl | rfl | rfl | rfl | rfl | rfl | rfl | rfl | rfl |
    rfl | rfl
  · exact .of_sign (.mark .leftParen) (fun _ => rfl) cs
  · exact .of_sign (.mark .rightParen) (fun _ => rfl) cs
  · exact .of_sign (.mark .leftBrace) (fun _ => rfl) cs
  · exact .of_sign (.mark .rightBrace) (fun _ => rfl) cs
  · exact .of_sign (.mark .semicolon) (fun _ => rfl) cs
  · exact .of_sign (.op .add) (fun _ => rfl) cs
  · exact .of_sign (.op .sub) (fun _ => rfl) cs
  · exact .of_sign (.op .mul) (fun _ => rfl) cs
  · exact .of_sign (.op .div) (fun _ => rfl) cs
  · exact itemized_orEqual (.mark .assign) (.op .eq) (fun _ => rfl) (fun _ => rfl) cs
  · exact itemized_orEqual (.mark .bang) (.op .ne) (fun _ => rfl) (fun _ => rfl) cs
  · exact itemized_orEqual (.op .lt) (.op .le) (fun _ => rfl) (fun _ => rfl) cs
  · exact itemized_orEqual (.op .gt) (.op .ge) (fun _ => rfl) (fun _ => rfl) cs
  · exact itemized_doubled (.inl rfl) (.op .and) (fun _ => rfl) cs
  · exact itemized_doubled (.inr rfl) (.op .or) (fun _ => rfl) cs
  · exact itemized_quote cs

theorem word_or_offence {c : Char} (hc : StartsItem c) (cs : List Char) : Itemized (c :: cs) := by
  by_cases hsign : c ∈ signs
  · exact itemized_sign hsign cs
  by_cases hdigit : c.isDigit = true
  · exact itemized_number hdigit cs
  by_cases hletter : isLetter c = true
  · obtain ⟨body, rest, rfl, hbody, hrest⟩ := exists_span isWordChar cs
    obtain ⟨t, ht, hgoesOn⟩ := spelled_letters hletter hbody
    exact .word ht (fun d hd => (hgoesOn d).trans (hrest d hd)) rfl
  · refine .offence (.stray hc fun t w hw => ?_) rfl
    exact (starts_word_iff.mp ⟨t, w, hw⟩).elim hsign fun h => h.elim hdigit hletter

end TinyScript
