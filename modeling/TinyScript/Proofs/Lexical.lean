import TinyScript.Proofs.Lexical.Gaps
import TinyScript.Proofs.Lexical.Words
import TinyScript.Token.Lexer

/-!
# The scan of a text

A text is scanned as the words into which the lexical grammar cuts it.

* `exists_cut`            every text is cut into words up to its last gap, or up to an offence
* `Scan.items_cut`        the words of a text are its items, and their lines are counted
* `spelled_of_mem_scan`   every token of a scan has a word that stands for it
* `Lexer.nth_ofSource`    a lexer gives what the scan has
* `scans_exactly_lexical_grammar`   all of this for whole texts
-/

namespace TinyScript

/-! ### Cutting a text -/

/-- what is left of a text where the words in front of it end -/
inductive Leftover (rest : List Char) : Prop where
  | last (h : LastGap rest) : Leftover rest
  | offence {gap lead behind : List Char} {cause : SourceError.Cause} (hgap : Gap gap)
      (h : Offends lead behind cause) (hrest : rest = gap ++ (lead ++ behind)) : Leftover rest

theorem Token.Spelled.ne_nil {t : Token} {word : List Char} (h : t.Spelled word) : word ≠ [] := by
  obtain ⟨c, cs, rfl, -⟩ := h.reads
  exact List.cons_ne_nil c cs

theorem exists_cut (text : List Char) : ∃ words rest, Cut rest words text ∧ Leftover rest := by
  induction hn : text.length using Nat.strongRecOn generalizing text with
  | _ n ih =>
    subst hn
    cases exists_gap text with
    | last h => exact ⟨[], text, .nil, .last h⟩
    | @item gap cs c hgap hc htext =>
      cases word_or_offence hc cs with
      | @word t word behind h hends hword =>
        rw [hword, ← List.append_assoc] at htext
        have hshorter : behind.length < text.length := by
          have hpos := List.length_pos_iff.mpr h.ne_nil
          rw [htext, List.length_append, List.length_append]
          omega
        obtain ⟨words, rest, hcut, hrest⟩ := ih _ hshorter behind rfl
        rw [htext]
        have hcons : Cut rest (⟨gap, word, t⟩ :: words) (gap ++ word ++ behind) :=
          .cons hgap h hends hcut
        exact ⟨_, rest, hcons, hrest⟩
      | @offence lead behind cause h hlead =>
        exact ⟨[], text, .nil, .offence hgap h (by rw [htext, hlead])⟩

/-! ### Scanning what was cut -/

/-- the tokens of words, if the text in front of them ends on `line` -/
def Word.locatedFrom (line : Nat) : List Word → List Located
  | [] => []
  | w :: words =>
    ⟨w.token, line + w.text.count '\n'⟩ :: locatedFrom (line + w.text.count '\n') words

theorem Word.locatedFrom_eq (line : Nat) (words : List Word) :
    locatedFrom line words = words.mapIdx fun i w =>
      ⟨w.token, line + ((words.take (i + 1)).flatMap Word.text).count '\n'⟩ := by
  induction words generalizing line with
  | nil => rfl
  | cons w words ih =>
    rw [locatedFrom, List.mapIdx_cons, ih]
    simp [Nat.add_assoc]

theorem Word.located_eq (words : List Word) : located words = locatedFrom 1 words :=
  (locatedFrom_eq 1 words).symm

namespace Scan

theorem items_lastGap {n : Nat} (hn : 0 < n) (line : Nat) {last : List Char} (h : LastGap last) :
    items n line last = ⟨[], .ok (line + last.count '\n')⟩ := by
  obtain ⟨n, rfl⟩ : ∃ m, n = m + 1 := ⟨n - 1, by omega⟩
  rw [items, skipBlanks_lastGap h]

theorem items_offence {n : Nat} (hn : 0 < n) (line : Nat) {gap lead rest : List Char}
    {cause : SourceError.Cause} (hgap : Gap gap) (h : Offends lead rest cause) :
    items n line (gap ++ (lead ++ rest)) = ⟨[], .error ⟨line + (gap ++ lead).count '\n', cause⟩⟩ := by
  obtain ⟨n, rfl⟩ : ∃ m, n = m + 1 := ⟨n - 1, by omega⟩
  obtain ⟨⟨c, cs, htext, hc, hitem⟩, hlead⟩ := h.refused
  rw [items, skipBlanks_gap hgap, htext, skipBlanks_item hc]
  simp only [hitem]
  rw [List.count_append, hlead, Nat.add_zero]

/-- One item is scanned for each word. -/
theorem items_cons {w : Word} {text : List Char} (hgap : Gap w.gap)
    (h : w.token.Spelled w.spelling) (hends : w.token.EndsBefore text) (n line : Nat) :
    items (n + 1) line (w.text ++ text) =
      ⟨⟨w.token, line + w.text.count '\n'⟩ :: (items n (line + w.text.count '\n') text).tokens,
        (items n (line + w.text.count '\n') text).stop⟩ := by
  have hline : line + w.gap.count '\n' + w.token.lineBreaks = line + w.text.count '\n' := by
    rw [Word.text, List.count_append, h.count_newlines, Nat.add_assoc]
  obtain ⟨c, cs, hword, hc, hitem⟩ := h.reads
  rw [items, Word.text, List.append_assoc, skipBlanks_gap hgap, hword, List.cons_append,
    skipBlanks_item hc]
  simp only [hitem text hends, hline]
  rw [← hword]
  rfl

theorem items_cut {rest text : List Char} {words : List Word} (h : Cut rest words text) :
    ∀ n line, text.length < n → ∃ m, rest.length < m ∧
      items n line text =
        ⟨Word.locatedFrom line words ++
            (items m (line + (words.flatMap Word.text).count '\n') rest).tokens,
          (items m (line + (words.flatMap Word.text).count '\n') rest).stop⟩ := by
  induction h with
  | nil => exact fun n line hn => ⟨n, hn, rfl⟩
  | @cons w words text hgap hspelled hends _ ih =>
    intro n line hn
    obtain ⟨n, rfl⟩ : ∃ m, n = m + 1 := ⟨n - 1, by omega⟩
    have hlength : text.length < n := by
      have hpos := List.length_pos_iff.mpr hspelled.ne_nil
      rw [Word.text, List.length_append, List.length_append] at hn
      omega
    obtain ⟨m, hm, hitems⟩ := ih n (line + w.text.count '\n') hlength
    refine ⟨m, hm, ?_⟩
    rw [items_cons hgap hspelled hends, hitems, List.flatMap_cons, List.count_append,
      ← Nat.add_assoc]
    rfl

end Scan

theorem scan_of_lastGap {source : String} {words : List Word} {last : List Char}
    (h : Cut last words source.toList) (hlast : LastGap last) :
    scan source = ⟨Word.located words, .ok (1 + source.toList.count '\n')⟩ := by
  obtain ⟨m, hm, hitems⟩ := Scan.items_cut h _ 1 (Nat.lt_succ_self _)
  rw [Scan.items_lastGap (Nat.zero_lt_of_lt hm) _ hlast, List.append_nil, Nat.add_assoc,
    ← List.count_append, ← h.text_eq, ← Word.located_eq] at hitems
  exact hitems

theorem scan_of_offence {source : String} {words : List Word} {gap lead rest : List Char}
    {cause : SourceError.Cause} (h : Cut (gap ++ (lead ++ rest)) words source.toList)
    (hgap : Gap gap) (hoffends : Offends lead rest cause) :
    scan source = ⟨Word.located words,
      .error ⟨1 + (words.flatMap Word.text ++ gap ++ lead).count '\n', cause⟩⟩ := by
  obtain ⟨m, hm, hitems⟩ := Scan.items_cut h _ 1 (Nat.lt_succ_self _)
  rw [Scan.items_offence (Nat.zero_lt_of_lt hm) _ hgap hoffends, List.append_nil, Nat.add_assoc,
    ← List.count_append, ← List.append_assoc, ← Word.located_eq] at hitems
  exact hitems

theorem spelled_of_mem_scan {source : String} {t : Located} (h : t ∈ (scan source).tokens) :
    ∃ word, t.token.Spelled word := by
  have hwords : ∃ rest words, Cut rest words source.toList ∧
      (scan source).tokens = Word.located words := by
    obtain ⟨words, rest, hcut, hrest⟩ := exists_cut source.toList
    refine ⟨rest, words, hcut, ?_⟩
    cases hrest with
    | last hlast => rw [scan_of_lastGap hcut hlast]
    | offence hgap hoffends hsplit =>
      subst hsplit
      rw [scan_of_offence hcut hgap hoffends]
  obtain ⟨rest, words, hcut, htokens⟩ := hwords
  rw [htokens, Word.located, List.mem_mapIdx] at h
  obtain ⟨i, hi, rfl⟩ := h
  exact ⟨_, hcut.spelled _ (List.getElem_mem hi)⟩

/-! ### One token at a time -/

namespace Lexer

theorem next_lastGap (line : Nat) {last : List Char} (h : LastGap last) :
    (Lexer.mk last line false).next =
      (some (.ok (none, line + last.count '\n')), ⟨[], line + last.count '\n', true⟩) := by
  simp only [next, Scan.skipBlanks_lastGap h]
  rfl

theorem next_offence (line : Nat) {gap lead rest : List Char} {cause : SourceError.Cause}
    (hgap : Gap gap) (h : Offends lead rest cause) :
    ∃ l : Lexer, l.finished = true ∧ (Lexer.mk (gap ++ (lead ++ rest)) line false).next =
      (some (.error ⟨line + (gap ++ lead).count '\n', cause⟩), l) := by
  obtain ⟨⟨c, cs, htext, hc, hitem⟩, hlead⟩ := h.refused
  refine ⟨⟨cs, line + gap.count '\n', true⟩, rfl, ?_⟩
  rw [List.count_append, hlead, Nat.add_zero, next, if_neg Bool.false_ne_true,
    Scan.skipBlanks_gap hgap, htext, Scan.skipBlanks_item hc]
  simp only [hitem]

theorem next_cons {w : Word} {text : List Char} (hgap : Gap w.gap)
    (h : w.token.Spelled w.spelling) (hends : w.token.EndsBefore text) (line : Nat) :
    (Lexer.mk (w.text ++ text) line false).next =
      (some (.ok (some w.token, line + w.text.count '\n')),
        ⟨text, line + w.text.count '\n', false⟩) := by
  obtain ⟨c, cs, hword, hc, hitem⟩ := h.reads
  rw [next, if_neg Bool.false_ne_true, Word.text, List.append_assoc, Scan.skipBlanks_gap hgap,
    List.count_append, h.count_newlines, hword, List.cons_append, Scan.skipBlanks_item hc]
  simp only [hitem text hends, Nat.add_assoc]

/-- what a lexer that gives `given` and is `l` afterwards gives in the end -/
theorem nth_of_next {l l' : Lexer} {given : Given} {givens : List Given}
    (h : l.next = (some given, l')) (hrest : ∀ i, l'.nth i = givens[i]?) (i : Nat) :
    l.nth i = (given :: givens)[i]? := by
  cases i with
  | zero => rw [nth, h, List.getElem?_cons_zero]
  | succ i => rw [nth, h, hrest, List.getElem?_cons_succ]

theorem nth_of_last {l l' : Lexer} {given : Given} (h : l.next = (some given, l'))
    (hl : l'.finished = true) : ∀ i, l.nth i = [given][i]? :=
  nth_of_next h fun i => nth_of_finished i hl

theorem nth_cut {rest text : List Char} {words : List Word} (h : Cut rest words text)
    (line : Nat) : ∀ givens,
    (∀ i, (Lexer.mk rest (line + (words.flatMap Word.text).count '\n') false).nth i = givens[i]?) →
    ∀ i, (Lexer.mk text line false).nth i =
      ((Word.locatedFrom line words).map (fun t => .ok (some t.token, t.line)) ++ givens)[i]? := by
  induction h generalizing line with
  | nil => exact fun _ hrest => hrest
  | @cons w words text hgap hspelled hends _ ih =>
    intro givens hrest
    rw [List.flatMap_cons, List.count_append, ← Nat.add_assoc] at hrest
    exact nth_of_next (next_cons hgap hspelled hends line) (ih _ givens hrest)

theorem nth_ofSource (source : String) (n : Nat) :
    (ofSource source).nth n = (scan source).given[n]? := by
  obtain ⟨words, rest, hcut, hrest⟩ := exists_cut source.toList
  cases hrest with
  | last hlast =>
    rw [scan_of_lastGap hcut hlast, Word.located_eq, hcut.text_eq, List.count_append,
      ← Nat.add_assoc]
    have hnext := next_lastGap (1 + (words.flatMap Word.text).count '\n') hlast
    exact nth_cut hcut 1 _ (nth_of_last hnext rfl) n
  | offence hgap hoffends hsplit =>
    subst hsplit
    obtain ⟨l, hl, hnext⟩ := next_offence (1 + (words.flatMap Word.text).count '\n') hgap hoffends
    rw [scan_of_offence hcut hgap hoffends, Word.located_eq, List.append_assoc, List.count_append,
      ← Nat.add_assoc]
    exact nth_cut hcut 1 _ (nth_of_last hnext hl) n

end Lexer

/-- **A text is scanned exactly as the lexical grammar says.**  A lexer gives the tokens of the scan,
then the end or an error, and then nothing.  The tokens are those of the words into which the text is
cut, none of which can be longer, with their lines, if that can be done up to the end of the text.
Otherwise there is an error, on the line of the character that offends. -/
theorem scans_exactly_lexical_grammar (source : String) :
    (∀ n, (Lexer.ofSource source).nth n = (scan source).given[n]?) ∧
    (∀ tokens endLine, scan source = ⟨tokens, .ok endLine⟩ ↔
      ∃ words last, Cut last words source.toList ∧ LastGap last ∧ tokens = Word.located words ∧
        endLine = 1 + source.toList.count '\n') ∧
    (∀ tokens e, scan source = ⟨tokens, .error e⟩ ↔
      ∃ words gap lead rest, Cut (gap ++ (lead ++ rest)) words source.toList ∧ Gap gap ∧
        Offends lead rest e.cause ∧ tokens = Word.located words ∧
        e.line = 1 + (words.flatMap Word.text ++ gap ++ lead).count '\n') ∧
    ((∃ words last, Cut last words source.toList ∧ LastGap last) ∨
      ∃ tokens e, scan source = ⟨tokens, .error e⟩) := by
  obtain ⟨words, rest, hcut, hrest⟩ := exists_cut source.toList
  refine ⟨Lexer.nth_ofSource source, ?_, ?_, ?_⟩
  · intro tokens endLine
    constructor
    · intro h
      cases hrest with
      | last hlast =>
        rw [scan_of_lastGap hcut hlast] at h
        cases h
        exact ⟨words, rest, hcut, hlast, rfl, rfl⟩
      | offence hgap hoffends hsplit =>
        subst hsplit
        rw [scan_of_offence hcut hgap hoffends] at h
        cases h
    · rintro ⟨words, last, hcut, hlast, rfl, rfl⟩
      exact scan_of_lastGap hcut hlast
  · intro tokens e
    constructor
    · intro h
      cases hrest with
      | last hlast =>
        rw [scan_of_lastGap hcut hlast] at h
        cases h
      | @offence gap lead behind cause hgap hoffends hsplit =>
        subst hsplit
        rw [scan_of_offence hcut hgap hoffends] at h
        cases h
        exact ⟨words, gap, lead, behind, hcut, hgap, hoffends, rfl, rfl⟩
    · obtain ⟨line, cause⟩ := e
      rintro ⟨words, gap, lead, rest, hcut, hgap, hoffends, rfl, rfl⟩
      exact scan_of_offence hcut hgap hoffends
  · cases hrest with
    | last hlast => exact .inl ⟨words, rest, hcut, hlast⟩
    | offence hgap hoffends hsplit =>
      subst hsplit
      exact .inr ⟨_, _, scan_of_offence hcut hgap hoffends⟩

end TinyScript
