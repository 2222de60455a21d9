import PgRouter.Authdb.Progress
import PgRouter.Config.Progress

/-!
# Parsing ends

Whatever a file contains, the loops over its tokens come to an end, and no token is taken after the last
lexer function (`parse_terminates`). Both lexers deliver some tokens without advancing, so what bounds the
number of rounds is that a parser function that succeeds has advanced (`Config.call_advances`,
`Authdb.parseTop_advances`). The loops of the lexers themselves look at less and less of the text in front
of them, and are functions for this reason.
-/

namespace PgRouter.Text

open Foundation Wire

universe u v

/-- Without a lexer function `emit` delivers no token. -/
theorem emit_eq_none {φ : Type u} {τ : Type v} [DecidableEq φ] {R : Rules φ τ} {l : Lexer φ} (h : l.f = none) :
    emit R l = none := by
  rw [emit]
  split
  · rfl
  · rename_i f hf
    rw [h] at hf
    cases hf

/-- The loops of `parse` come to an end for every text, however many rounds they may have beyond as many as the
text has octets, and two: there is a result that does not depend on this bound, and whenever a token is taken
there is a lexer function. -/
theorem parse_terminates (text : List Octet) :
    (∃ x, ∀ k, (∃ l, (Config.parse (text.length + 2 + k) Config.parserInit).run (emit Config.rules)
        (Config.lexerInit text) = some (some x, l)) ∧
      ∀ l ∈ (Config.parse (text.length + 2 + k) Config.parserInit).asked (emit Config.rules)
        (Config.lexerInit text), l.f ≠ none) ∧
    ∃ x, ∀ k, (∃ l, (Authdb.parse (text.length + 2 + k) Authdb.parserInit).run (emit Authdb.rules)
        (Authdb.lexerInit text) = some (some x, l)) ∧
      ∀ l ∈ (Authdb.parse (text.length + 2 + k) Authdb.parserInit).asked (emit Authdb.rules)
        (Authdb.lexerInit text), l.f ≠ none := by
  obtain ⟨x, hx⟩ := Config.exists_run text
  obtain ⟨y, hy⟩ := Authdb.exists_run text
  refine ⟨⟨x, fun k => ⟨hx k, ?_⟩⟩, y, fun k => ⟨hy k, ?_⟩⟩
  · obtain ⟨m, hm⟩ := hx k
    exact fun l hl hf => Consumer.next_ne_of_run hm l hl (emit_eq_none hf)
  · obtain ⟨m, hm⟩ := hy k
    exact fun l hl hf => Consumer.next_ne_of_run hm l hl (emit_eq_none hf)

end PgRouter.Text
