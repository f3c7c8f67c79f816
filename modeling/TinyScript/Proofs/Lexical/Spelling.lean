import TinyScript.Token.Scan

/-!
# How tokens are spelled

The lexical grammar, apart from the way in which a text is scanned.

* `isSpace`, `isLetter`, `isWordChar`   the classes of characters, and that the scanner tests for them
* `Text.isName`        the texts that are called names, keywords among them
* `Gap`, `LastGap`     blanks and comments; a comment ends with its line, or with the text
* `Token.Spelled`      the words that stand for a token
* `Token.goesOn`       the characters that must not follow the word of a token: with them it would
                       be longer, or another one
* `Cut`                a text cut into words with the gaps in front of them
* `Word.located`       the tokens of words, each with the line on which its word ends
* `Offends`            a text that starts neither with a word nor with a gap
-/

namespace TinyScript

/-! ### Characters -/

/-- the 25 code points with the Unicode property White_Space -/
def spaces : List Nat :=
  [0x9, 0xA, 0xB, 0xC, 0xD, 0x20, 0x85, 0xA0, 0x1680, 0x2000, 0x2001, 0x2002, 0x2003, 0x2004, 0x2005,
    0x2006, 0x2007, 0x2008, 0x2009, 0x200A, 0x2028, 0x2029, 0x202F, 0x205F, 0x3000]

def isSpace (c : Char) : Bool := spaces.contains c.toNat

/-- the letters of the alphabet and the underscore -/
def isLetter (c : Char) : Bool := 'A' ≤ c && c ≤ 'Z' || 'a' ≤ c && c ≤ 'z' || c == '_'

def isWordChar (c : Char) : Bool := isLetter c || '0' ≤ c && c ≤ '9'

/-- a letter or an underscore, and then letters, underscores and digits -/
def Text.isName (s : String) : Bool := s.toList.head?.any isLetter && s.toList.all isWordChar

theorem Text.isBlank_eq (c : Char) : Text.isBlank c = isSpace c := by
  have hrange : (∃ r ∈ blankRanges, r.1 ≤ c.toNat ∧ c.toNat ≤ r.2) ↔ c.toNat ∈ spaces := by
    simp only [blankRanges, spaces, List.mem_cons, List.not_mem_nil, or_false, exists_eq_or_imp,
      exists_eq_left]
    omega
  rw [Bool.eq_iff_iff, isSpace, List.contains_iff_mem, ← hrange, isBlank, inRanges, List.any_eq_true]
  simp only [Bool.and_eq_true, decide_eq_true_eq]

theorem Scan.startsWord_eq (c : Char) : Scan.startsWord c = isLetter c := by
  have hupper : c.isUpper = ('A' ≤ c && c ≤ 'Z') := Bool.decide_and ..
  show (c.isUpper || c.isLower || c == '_') = isLetter c
  rw [hupper]
  rfl

theorem Scan.continuesWord_eq (c : Char) : Scan.continuesWord c = isWordChar c := by
  rw [isWordChar, ← startsWord_eq, startsWord, continuesWord]
  exact Bool.or_right_comm c.isAlpha c.isDigit (c == '_')

/-! ### Gaps -/

inductive Gap : List Char → Prop where
  | nil : Gap []
  | blank {c : Char} {cs : List Char} (hc : isSpace c = true) (h : Gap cs) : Gap (c :: cs)
  | comment {body cs : List Char} (hbody : '\n' ∉ body) (h : Gap cs) :
      Gap ('#' :: body ++ '\n' :: cs)

/-- what is left of a text behind its last word: there a comment needs no newline -/
inductive LastGap : List Char → Prop where
  | gap {cs : List Char} (h : Gap cs) : LastGap cs
  | comment {gap body : List Char} (h : Gap gap) (hbody : '\n' ∉ body) :
      LastGap (gap ++ '#' :: body)

/-- the character starts no gap -/
def StartsItem (c : Char) : Prop := isSpace c = false ∧ c ≠ '#'

/-! ### Words -/

namespace Token

/-- the value of digits -/
def ofDigits (digits : List Char) : Nat := Nat.ofDigitChars 10 digits 0

/-- The word stands for the token.  An identifier is no keyword; an integer fits 32 bits; a double is
the closest one to the number that is written. -/
inductive Spelled : Token → List Char → Prop where
  | ident {c : Char} {cs : List Char} (hc : isLetter c = true)
      (hcs : ∀ d ∈ cs, isWordChar d = true)
      (hk : ∀ k : Keyword, k.spelling ≠ String.ofList (c :: cs)) :
      Spelled (.ident (String.ofList (c :: cs))) (c :: cs)
  | keyword (k : Keyword) : Spelled (.keyword k) k.spelling.toList
  | int {digits : List Char} (hne : digits ≠ []) (hd : ∀ d ∈ digits, d.isDigit = true)
      (hfits : ofDigits digits ≤ 2147483647) :
      Spelled (.int (Int32.ofInt (ofDigits digits))) digits
  | float {whole fraction : List Char} (hw : whole ≠ []) (hwd : ∀ d ∈ whole, d.isDigit = true)
      (hf : fraction ≠ []) (hfd : ∀ d ∈ fraction, d.isDigit = true) :
      Spelled (.float (Float.ofScientific (ofDigits (whole ++ fraction)) true fraction.length))
        (whole ++ '.' :: fraction)
  | text {cs : List Char} (hcs : '"' ∉ cs) : Spelled (.text (String.ofList cs)) ('"' :: cs ++ ['"'])
  | mark (m : Mark) : Spelled (.mark m) [m.char]
  | op (o : Operator) : Spelled (.op o) o.symbol.toList

def goesOn : Token → Char → Bool
  | .ident _, c | .keyword _, c => isWordChar c
  | .int _, c => c.isDigit || c == '.'
  | .float _, c => c.isDigit
  | .mark .assign, c | .mark .bang, c | .op .lt, c | .op .gt, c => c == '='
  | _, _ => false

/-- the word of the token ends where the text goes on with `rest` -/
def EndsBefore (t : Token) (rest : List Char) : Prop := ∀ c ∈ rest.head?, t.goesOn c = false

end Token

/-! ### Texts -/

/-- a word of a text, the token for which it stands, and the gap in front of it -/
structure Word where
  gap : List Char
  spelling : List Char
  token : Token

def Word.text (w : Word) : List Char := w.gap ++ w.spelling

/-- A text starts with words, none of which can be longer, and goes on with `rest`. -/
inductive Cut (rest : List Char) : List Word → List Char → Prop where
  | nil : Cut rest [] rest
  | cons {w : Word} {words : List Word} {text : List Char} (hgap : Gap w.gap)
      (hspelled : w.token.Spelled w.spelling) (hends : w.token.EndsBefore text)
      (h : Cut rest words text) : Cut rest (w :: words) (w.text ++ text)

theorem Cut.text_eq {rest text : List Char} {words : List Word} (h : Cut rest words text) :
    text = words.flatMap Word.text ++ rest := by
  induction h with
  | nil => rfl
  | cons _ _ _ _ ih => rw [ih, List.flatMap_cons, List.append_assoc]

theorem Cut.spelled {rest text : List Char} {words : List Word} (h : Cut rest words text) :
    ∀ w ∈ words, w.token.Spelled w.spelling := by
  induction h with
  | nil => exact List.forall_mem_nil _
  | cons _ hspelled _ _ ih => exact List.forall_mem_cons.mpr ⟨hspelled, ih⟩

/-- The line of a token is one more than the number of newlines up to the end of its word. -/
def Word.located (words : List Word) : List Located :=
  words.mapIdx fun i w => ⟨w.token, 1 + ((words.take (i + 1)).flatMap Word.text).count '\n'⟩

/-! ### What is no word -/

/-- Neither a word nor a gap starts here, for this reason: with the first of `rest`, behind the
characters in `lead`, it is clear that there is no word. -/
inductive Offends : (lead rest : List Char) → SourceError.Cause → Prop where
  | stray {c : Char} {cs : List Char} (hc : StartsItem c)
      (h : ∀ t w, ¬ Token.Spelled t (c :: w)) : Offends [] (c :: cs) (.unexpectedChar c)
  | single {c : Char} {cs : List Char} (hc : c = '&' ∨ c = '|') (h : cs.head? ≠ some c) :
      Offends [] (c :: cs) (.unexpectedChar c)
  | point {digits cs : List Char} (hne : digits ≠ []) (hd : ∀ d ∈ digits, d.isDigit = true)
      (h : ∀ d ∈ cs.head?, d.isDigit = false) : Offends digits ('.' :: cs) (.unexpectedChar '.')
  | unterminated {cs : List Char} (h : '"' ∉ cs) : Offends [] ('"' :: cs) .unterminatedText
  | tooLarge {digits cs : List Char} (hd : ∀ d ∈ digits, d.isDigit = true)
      (hlarge : 2147483647 < Token.ofDigits digits)
      (h : ∀ d ∈ cs.head?, (d.isDigit || d == '.') = false) :
      Offends [] (digits ++ cs) (.numberOutOfRange (String.ofList digits))

end TinyScript
