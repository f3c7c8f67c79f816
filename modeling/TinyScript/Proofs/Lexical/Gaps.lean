import TinyScript.Proofs.Lexical.Spelling
import TinyScript.Proofs.Text.Spans

/-!
# Gaps are skipped

* `exists_gap`               every text starts with a gap that ends at an item or with the text
* `Scan.skipBlanks_gap`      a gap is skipped, and its newlines are counted
* `Scan.skipBlanks_lastGap`  so is one at the end of a text
-/

namespace TinyScript

theorem Gap.append {as bs : List Char} (ha : Gap as) (hb : Gap bs) : Gap (as ++ bs) := by
  induction ha with
  | nil => exact hb
  | blank hc _ ih => exact .blank hc ih
  | @comment body cs hbody _ ih =>
    have hcomment := Gap.comment hbody ih
    simpa using hcomment

theorem LastGap.append {as bs : List Char} (ha : Gap as) (hb : LastGap bs) : LastGap (as ++ bs) := by
  cases hb with
  | gap h => exact .gap (ha.append h)
  | comment h hbody =>
    rw [← List.append_assoc]
    exact .comment (ha.append h) hbody

theorem startsItem_ne_newline {c : Char} (h : StartsItem c) : c ≠ '\n' := by
  rintro rfl
  exact absurd h.1 (by decide)

/-- a text is a gap, or it has a gap in front of the first character that is none -/
inductive Gapped (text : List Char) : Prop where
  | last (h : LastGap text) : Gapped text
  | item {gap cs : List Char} {c : Char} (hgap : Gap gap) (hc : StartsItem c)
      (htext : text = gap ++ c :: cs) : Gapped text

theorem Gapped.behind {gap text : List Char} (hgap : Gap gap) (h : Gapped text) :
    Gapped (gap ++ text) := by
  cases h with
  | last hlast => exact .last (.append hgap hlast)
  | item hgap' hc htext =>
    exact .item (hgap.append hgap') hc (by rw [htext, List.append_assoc])

theorem exists_gap (text : List Char) : Gapped text := by
  -- a comment is skipped as a whole, so the induction is on the length
  induction hn : text.length using Nat.strongRecOn generalizing text with
  | _ n ih =>
    subst hn
    cases text with
    | nil => exact .last (.gap .nil)
    | cons c cs =>
      by_cases hblank : isSpace c = true
      · exact (ih _ (Nat.lt_succ_self _) cs rfl).behind (.blank hblank .nil)
      by_cases hhash : c = '#'
      · subst hhash
        obtain ⟨body, rest, rfl, hbody, hrest⟩ := exists_span (· != '\n') cs
        have hfree : '\n' ∉ body := fun h => by simpa using hbody _ h
        cases rest with
        | nil =>
          rw [List.append_nil]
          exact .last (.comment .nil hfree)
        | cons d rest =>
          obtain rfl : d = '\n' := by simpa using hrest d rfl
          have hlength : rest.length < ('#' :: (body ++ '\n' :: rest)).length := by
            simp
            omega
          have hbehind := (ih _ hlength rest rfl).behind (.comment hfree .nil)
          simpa using hbehind
      · exact .item .nil ⟨by simpa using hblank, hhash⟩ rfl

namespace Scan

theorem skipBlanks_item {c : Char} (h : StartsItem c) (line : Nat) (cs : List Char) :
    skipBlanks line false (c :: cs) = (line, c :: cs) := by
  rw [skipBlanks.eq_3 _ _ _ _ (startsItem_ne_newline h), Bool.false_or, Text.isBlank_eq, h.1]
  exact if_neg h.2

theorem skipBlanks_blank {c : Char} (hc : isSpace c = true) (line : Nat) (cs : List Char) :
    skipBlanks line false (c :: cs) = skipBlanks (line + [c].count '\n') false cs := by
  by_cases hn : c = '\n'
  · subst hn
    rfl
  · rw [skipBlanks.eq_3 _ _ _ _ hn, Text.isBlank_eq, hc, List.count_singleton, beq_false_of_ne hn]
    rfl

/-- Within a comment everything up to a newline is skipped. -/
theorem skipBlanks_body {body : List Char} (hbody : '\n' ∉ body) (line : Nat) (rest : List Char) :
    skipBlanks line true (body ++ rest) = skipBlanks line true rest := by
  induction body with
  | nil => rfl
  | cons c body ih =>
    have hc : c ≠ '\n' := fun h => hbody (h ▸ List.mem_cons_self)
    rw [List.cons_append, skipBlanks.eq_3 _ _ _ _ hc, Bool.true_or]
    exact ih fun h => hbody (List.mem_cons_of_mem c h)

theorem skipBlanks_hash (line : Nat) (cs : List Char) :
    skipBlanks line false ('#' :: cs) = skipBlanks line true cs := rfl

theorem skipBlanks_gap {gap : List Char} (h : Gap gap) (line : Nat) (rest : List Char) :
    skipBlanks line false (gap ++ rest) = skipBlanks (line + gap.count '\n') false rest := by
  induction h generalizing line with
  | nil => rfl
  | @blank c cs hc _ ih =>
    rw [List.cons_append, skipBlanks_blank hc, ih, Nat.add_assoc, ← List.count_append,
      List.singleton_append]
  | @comment body cs hbody _ ih =>
    have hnone : body.count '\n' = 0 := List.count_eq_zero.mpr hbody
    have hcount : ('#' :: body ++ '\n' :: cs).count '\n' = 1 + cs.count '\n' := by
      simp [hnone, Nat.add_comm]
    rw [List.append_assoc, List.cons_append, skipBlanks_hash, skipBlanks_body hbody, hcount,
      ← Nat.add_assoc]
    exact ih (line + 1)

theorem skipBlanks_lastGap {gap : List Char} (h : LastGap gap) (line : Nat) :
    skipBlanks line false gap = (line + gap.count '\n', []) := by
  cases h with
  | gap h =>
    have hskip := skipBlanks_gap h line []
    rwa [List.append_nil] at hskip
  | @comment gap body h hbody =>
    have hnone : body.count '\n' = 0 := List.count_eq_zero.mpr hbody
    rw [skipBlanks_gap h, skipBlanks_hash, ← List.append_nil body, skipBlanks_body hbody]
    simp [skipBlanks, hnone]

end Scan

end TinyScript
