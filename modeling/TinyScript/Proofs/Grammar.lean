import TinyScript.Proofs.Grammar.Soundness

/-!
# The programs that are read

* `Program.ofTokens_eq_ok_iff`     a list of tokens is read as a program exactly if the program is
                                   well formed and the list is its spelling
* `Program.reads_exactly_grammar`  the same for whole source texts, and no two well-formed programs
                                   have one spelling
-/

namespace TinyScript.Program

open Parse

theorem ofTokens_eq_ok_iff {tokens : List Located} {endLine : Nat} {p : Program} :
    ofTokens tokens endLine = .ok p ↔ p.WellFormed ∧ tokens.map Located.token = p.tokens := by
  unfold ofTokens
  rw [run_eq_ok_iff]
  constructor
  · rintro ⟨s, hsteps, hfinish⟩
    obtain ⟨hproper, hspelled⟩ := steps_spelled proper_start hsteps
    obtain ⟨hwf, htokens⟩ := finish_spelled hproper hfinish
    refine ⟨hwf, ?_⟩
    rw [htokens, hspelled]
    rfl
  · rintro ⟨hwf, htokens⟩
    rw [htokens]
    exact steps_tokens_program hwf

theorem eq_of_tokens_eq {p q : Program} (hp : p.WellFormed) (hq : q.WellFormed)
    (h : p.tokens = q.tokens) : p = q := by
  obtain ⟨s, hs, hsp⟩ := steps_tokens_program hp
  obtain ⟨s', hs', hsq⟩ := steps_tokens_program hq
  rw [h, hs'] at hs
  obtain rfl := Except.ok.inj hs
  exact Except.ok.inj (hsp.symm.trans hsq)

theorem ofSource_eq_ok_iff {source : String} {p : Program} :
    ofSource source = .ok p ↔ (∃ endLine, (scan source).stop = .ok endLine) ∧
      p.WellFormed ∧ (scan source).tokens.map Located.token = p.tokens := by
  unfold ofSource
  cases hs : (scan source).stop with
  | ok endLine =>
    show ofTokens (scan source).tokens endLine = .ok p ↔ _
    rw [ofTokens_eq_ok_iff]
    exact ⟨fun h => ⟨⟨endLine, rfl⟩, h⟩, And.right⟩
  | error e =>
    constructor
    · intro h; cases h
    · rintro ⟨⟨endLine, h⟩, -⟩; cases h

/-- **The reader accepts exactly the grammar.**  A list of tokens is read as the program `p` if and
only if `p` is well formed and the list is the spelling of `p`, from its first token to its last; a
source text is read as `p` if and only if its tokens are; and a spelling belongs to one well-formed
program only. -/
theorem reads_exactly_grammar :
    (∀ (tokens : List Located) (endLine : Nat) (p : Program),
      ofTokens tokens endLine = .ok p ↔
        p.WellFormed ∧ tokens.map Located.token = p.tokens) ∧
    (∀ (source : String) (p : Program),
      ofSource source = .ok p ↔ (∃ endLine, (scan source).stop = .ok endLine) ∧
        p.WellFormed ∧ (scan source).tokens.map Located.token = p.tokens) ∧
    ∀ p q : Program, p.WellFormed → q.WellFormed → p.tokens = q.tokens → p = q :=
  ⟨fun _ _ _ => ofTokens_eq_ok_iff, fun _ _ => ofSource_eq_ok_iff, fun _ _ => eq_of_tokens_eq⟩

end TinyScript.Program
