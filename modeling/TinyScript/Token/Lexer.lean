import TinyScript.Token.Scan

/-!
# Tokens one at a time

A lexer gives the tokens of a text one after the other, each with its line, and at last the end or an
error.  From then on it gives nothing.

* `Lexer.next`   what a lexer gives, and what it is afterwards
* `Lexer.nth`    what it gives when it is asked for the `n`-th time
* `Scan.given`   all that it should have given in the end
-/

namespace TinyScript

structure Lexer where
  /-- the text behind the last token -/
  rest : List Char
  line : Nat := 1
  finished : Bool := false

namespace Lexer

/-- a token, or the end if there is none, with its line -/
abbrev Given := Except SourceError (Option Token × Nat)

def ofSource (source : String) : Lexer := { rest := source.toList }

def next (l : Lexer) : Option Given × Lexer :=
  if l.finished then (none, l)
  else
    match Scan.skipBlanks l.line false l.rest with
    | (line, []) => (some (.ok (none, line)), ⟨[], line, true⟩)
    | (line, c :: cs) =>
      match Scan.item c cs with
      | .error cause => (some (.error ⟨line, cause⟩), ⟨cs, line, true⟩)
      | .ok (token, rest) =>
        let line := line + token.lineBreaks
        (some (.ok (some token, line)), ⟨rest, line, false⟩)

def nth : Nat → Lexer → Option Given
  | 0, l => l.next.1
  | n + 1, l => nth n l.next.2

theorem nth_of_finished (n : Nat) {l : Lexer} (h : l.finished = true) : l.nth n = none := by
  have hnext : l.next = (none, l) := if_pos h
  induction n with
  | zero => rw [nth, hnext]
  | succ n ih => rw [nth, hnext, ih]

end Lexer

def Scan.given (scan : Scan) : List Lexer.Given :=
  scan.tokens.map (fun t => .ok (some t.token, t.line)) ++ [scan.stop.map (none, ·)]

end TinyScript
