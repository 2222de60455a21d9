import PgRouter.Authdb.Load
import PgRouter.Text.Tokens

/-!
# The tokens of an authentication database

What the lexer delivers, and by how many octets it advances then (`lexeme`, `lexemes`). Of a word that is
the last of the text the last octet is left, so the same position has another word, at last an empty one,
again and again.
-/

namespace PgRouter.Authdb

open Foundation Wire Text

/-- What is skipped. -/
def blank (c : Octet) : Bool := isspace c && c ≠ newline

/-- An octet of a word. -/
def inWord (c : Octet) : Bool := c ≠ 0 && !isspace c

/-- By how much the lexer advances for a word that begins with `c`, with `q` following. -/
def wordLength (q : List Octet) : ℤ := cut (1 + (q.takeWhile inWord).length) (q.dropWhile inWord)

/-- What the lexer delivers, and by how much it advances, where blanks and comments have been skipped. -/
def lexeme (r : List Octet) : Token × ℤ :=
  match r with
  | [] => ({ type := .eos }, 0)
  | c :: q =>
    if c = 0 then ({ type := .eos }, 0)
    else if c = newline then ({ type := .newline }, 1)
    else if c = 0x27 ∨ c = 0x22 then quoted (fun value => { type := .qstring, value := value }) { type := .error } c q
    else ({ type := .word, value := r.take (wordLength q).toNat }, wordLength q)

/-- With these tokens the lexer is at an end. -/
def Final (t : Token) : Prop := t.type = .eos ∨ t.type = .error

variable {l : Lexer LexFn} {u r q : List Octet} {c : Octet}

/-- The loop of `lex_bareword` ends behind the word, or one octet before its end if the text ends there. -/
theorem toBlank_eq (h : l.At u r) :
    toBlank l = l.goto (l.pos + cut (r.takeWhile inWord).length (r.dropWhile inWord)) := by
  induction r generalizing l u with
  | nil =>
    rw [toBlank, h.next_nil, if_pos (.inl rfl)]
    rfl
  | cons c r ih =>
    rw [toBlank, h.next_cons]
    by_cases hend : c = 0 ∨ isspace c
    · have hword : ¬inWord c = true := by
        rcases hend with rfl | hspace
        · decide
        · simp [inWord, hspace]
      rw [if_pos hend, List.takeWhile_cons_of_neg hword, List.dropWhile_cons_of_neg hword,
        cut_of_ne (List.cons_ne_nil c r), Lexer.backup_eq]
      simp
    · have hword : inWord c = true := by
        obtain ⟨h0, hspace⟩ := not_or.mp hend
        simp [inWord, h0, hspace]
      rw [if_neg hend, ih h.step, List.takeWhile_cons_of_pos hword, List.dropWhile_cons_of_pos hword,
        List.length_cons, Nat.add_comm, cut_add, Lexer.goto_goto, Lexer.goto_pos]
      exact congrArg l.goto (by omega)

/-- `lex_bareword`. -/
theorem lexBareword_eq (h : l.Within u [c] q) :
    Delivers Final LexFn.any l u ({ type := .word, value := (c :: q).take (wordLength q).toNat }, wordLength q)
      (lexBareword l) := by
  have hword : toBlank (l.setF (some .any)) = (l.setF (some .any)).goto (u.length + wordLength q) := by
    rw [toBlank_eq (h.at'.setF _), wordLength, cut_add, (h.setF _).pos]
    exact congrArg (Lexer.goto _) (add_assoc _ _ _)
  rw [lexBareword, hword, (h.setF _).value]
  exact ⟨rfl, fun _ => Lexer.goto_ignore rfl _⟩

/-- `lex_any` skips blanks, and calls for comments to be skipped. -/
theorem rules_skips : Skips rules blank .comment where
  atBlank h hc := by
    change lexAny _ = lexAny _
    rw [lexAny, h.next_cons, if_pos (by simpa [blank] using hc)]
  atHash h hc heq := by
    change lexAny _ = _
    subst heq
    rw [lexAny, h.next_cons, if_neg (by simpa [blank] using hc)]
    rfl
  inComment l := rfl

/-- `lex_any` at the end of the text. -/
theorem lexAny_atEnd (h : l.next.1 = 0) : lexAny l = (some { type := .eos }, l.next.2.setF none) := by
  rw [lexAny, h, if_neg (by decide)]
  rfl

/-- The token at the beginning of the text, where no blanks or comments come first. -/
theorem emits_lexeme (h : l.At u r) (hf : l.f = some .any) (hstart : l.start = u.length)
    (hhead : ∀ c ∈ r.head?, ¬blank c ∧ c ≠ ch '#') : Emits rules Final l u (lexeme r) := by
  cases r with
  | nil => exact emits_final hf (.inl rfl) (lexAny_atEnd (by rw [h.next_nil]))
  | cons c q =>
    obtain ⟨hblank, hhash⟩ := hhead c rfl
    have hany : rules.call .any l = lexOne c (l.goto (l.pos + 1)) := by
      change lexAny _ = _
      rw [lexAny, h.next_cons, if_neg (by simpa [blank] using hblank)]
    have hone : lexOne c (l.goto (l.pos + 1)) = lexOne c (l.goto (l.pos + 1)) := rfl
    conv at hone => rhs; rw [lexOne]
    simp only [lexeme]
    by_cases h0 : c = 0
    · rw [if_pos h0] at hone ⊢
      exact emits_final hf (.inl rfl) (hany.trans hone)
    rw [if_neg h0] at hone ⊢
    by_cases h1 : c = newline
    · rw [if_pos h1] at hone ⊢
      exact emits_single hf h.pos (hany.trans hone)
    rw [if_neg h1, if_neg hhash] at hone
    rw [if_neg h1]
    by_cases h2 : c = 0x27 ∨ c = 0x22
    · rw [if_pos h2] at hone ⊢
      exact emits_sub h hf hstart (fun _ => rfl) (fun h => delivers_quoted h (.inr rfl) _) (hany.trans hone)
    rw [if_neg h2] at hone ⊢
    exact emits_sub h hf hstart (fun _ => rfl) lexBareword_eq (hany.trans hone)

/-- The tokens of an authentication database. -/
def lexemes : Lexemes rules where
  blank := blank
  comment := .comment
  skips := rules_skips
  Final := Final
  lexeme := lexeme
  emits := emits_lexeme
  atEnd _ h := ⟨_, lexAny_atEnd h⟩
  final_nil := .inl rfl

end PgRouter.Authdb
