import PgRouter.Authdb.RoundTrip
import PgRouter.Config.FinalNewline
import PgRouter.Config.Parser

/-!
# Quoted strings in a configuration

`lex_qstring` looks for the closing quote, and passes over what follows a backslash. `as_string` goes through what is
between the quotes twice, first for the length of the string and then for its characters, and passes over a backslash.

## The model

The two loops of `as_string` move a pointer and a counter together, and know nothing of where the token ends but the
counter. They have no result if the pointer leaves the token.

## What is proved

A string that is quoted, with a backslash before every backslash and every quote, is one token, whatever follows, and
`as_string` returns the string; and for every token that the lexer delivers, the first loop counts what the second one
stores, and neither leaves the token (`quotes_roundTrip`).
-/

namespace PgRouter.Config

open Foundation Wire Text
open Authdb (escape quote IsQuote)

/-! ### The loops of `as_string` -/

/-- The first loop, which counts the characters. -/
def lengthLoop : ℕ → List Octet → ℕ → Option ℕ
  | 0, _, len => some len
  | _ + 1, [], _ => none
  | left + 1, c :: p, len =>
    if c = backslash then
      match p with
      | [] => none
      | _ :: p => lengthLoop (left - 1) p (len + 1)
    else lengthLoop left p (len + 1)

/-- The second loop, which stores them. -/
def storeLoop : ℕ → List Octet → List Octet → Option (List Octet)
  | 0, _, s => some s
  | _ + 1, [], _ => none
  | left + 1, c :: p, s =>
    if c = backslash then
      match p with
      | [] => none
      | c :: p => storeLoop (left - 1) p (s ++ [escaped c])
    else storeLoop left p (s ++ [c])

/-- The length that the first pass of `as_string` computes for a quoted token. -/
def firstPass (t : Token) : Option ℕ := lengthLoop (t.value.length - 2) t.value.tail 0

/-- The characters that the second pass stores. -/
def secondPass (t : Token) : Option (List Octet) := storeLoop (t.value.length - 2) t.value.tail []

variable {left : ℕ} {p s v r r' b : List Octet} {q c : Octet} {t : Token}

theorem lengthLoop_cons (hc : c ≠ backslash) (left : ℕ) (p : List Octet) (len : ℕ) :
    lengthLoop (left + 1) (c :: p) len = lengthLoop left p (len + 1) := by
  rw [lengthLoop.eq_def]
  exact if_neg hc

theorem storeLoop_cons (hc : c ≠ backslash) (left : ℕ) (p s : List Octet) :
    storeLoop (left + 1) (c :: p) s = storeLoop left p (s ++ [c]) := by
  rw [storeLoop.eq_def]
  exact if_neg hc

/-- The first loop counts what the second one stores. -/
theorem lengthLoop_eq (left : ℕ) (p s : List Octet) :
    lengthLoop left p s.length = (storeLoop left p s).map List.length := by
  fun_induction storeLoop left p s with
  | case1 p s => rw [lengthLoop, Option.map_some]
  | case2 left s => rw [lengthLoop, Option.map_none]
  | case3 left s => rw [lengthLoop, if_pos rfl, Option.map_none]
  | case4 left s c p ih => rw [lengthLoop, if_pos rfl, ← ih, List.length_append, List.length_singleton]
  | case5 left c p s hc ih => rw [lengthLoop_cons hc, ← ih, List.length_append, List.length_singleton]

/-- The first pass computes the length of what the second one stores. -/
theorem firstPass_eq (t : Token) : firstPass t = (secondPass t).map List.length := lengthLoop_eq _ _ []

/-- The second loop stores what `unquote` makes of the text. -/
theorem storeLoop_eq (h : storeLoop left p s = some v) : v = s ++ unquote left p := by
  fun_induction storeLoop left p s with
  | case1 p s => rw [unquote, List.append_nil, Option.some.inj h]
  | case2 left s => cases h
  | case3 left s => cases h
  | case4 left s c p ih => rw [unquote, if_pos rfl, ih h, List.append_assoc, List.singleton_append]
  | case5 left c p s hc ih => rw [Authdb.unquote_cons hc, ih h, List.append_assoc, List.singleton_append]

/-! ### What is between the quotes -/

/-- What can be between the quotes of a token: behind every backslash there is an octet that belongs to it. -/
inductive Body : List Octet → Prop where
  /-- Nothing. -/
  | nil : Body []
  /-- An octet that is no backslash. -/
  | plain {c : Octet} {b : List Octet} : c ≠ backslash → Body b → Body (c :: b)
  /-- A backslash and the octet behind it. -/
  | escape (c : Octet) {b : List Octet} : Body b → Body (backslash :: c :: b)

/-- The second loop does not leave the quotes. -/
theorem Body.exists_storeLoop (h : Body b) (r s : List Octet) : ∃ v, storeLoop b.length (b ++ r) s = some v := by
  induction h generalizing s with
  | nil => exact ⟨s, by rw [List.length_nil, storeLoop]⟩
  | plain hc h ih =>
    rw [List.cons_append, List.length_cons, storeLoop_cons hc]
    exact ih _
  | escape c h ih =>
    rw [List.cons_append, List.cons_append, List.length_cons, List.length_cons, storeLoop, if_pos rfl,
      Nat.add_sub_cancel]
    exact ih _

/-- What `lex_qstring` has gone through when it finds the closing quote. -/
theorem exists_body {esc : Bool} (h : afterQuote q esc r = some r') :
    ∃ b, r = b ++ q :: r' ∧ Body ((if esc then [backslash] else []) ++ b) := by
  induction r generalizing esc with
  | nil => rw [afterQuote] at h; cases h
  | cons c r ih =>
    cases esc with
    | true =>
      rw [afterQuote] at h
      obtain ⟨b, rfl, hb⟩ := ih h
      exact ⟨c :: b, rfl, .escape c hb⟩
    | false =>
      rw [afterQuote] at h
      split_ifs at h with h0 hq
      · obtain rfl := Option.some.inj h
        exact ⟨[], by rw [hq, List.nil_append], .nil⟩
      · obtain ⟨b, rfl, hb⟩ := ih h
        refine ⟨c :: b, rfl, ?_⟩
        by_cases hc : c = backslash
        · rw [decide_eq_true hc, if_pos rfl] at hb
          rw [hc]
          exact hb
        · rw [decide_eq_false hc] at hb
          exact .plain hc hb

/-- A quoted token is its body between two quotes. -/
theorem lexeme_qstring (h : (lexeme r).1.type = .qstring) :
    ∃ q b, (lexeme r).1.value = q :: (b ++ [q]) ∧ Body b := by
  have hne : ∀ {y : Lexeme}, y.1.type ∈ UNQUOTED → y.1.type ≠ .qstring := fun hmem heq => by
    rw [heq] at hmem
    simp [UNQUOTED] at hmem
  cases r with
  | nil => cases h
  | cons c r =>
    simp only [lexeme] at h ⊢
    split_ifs at h ⊢
    · cases hafter : afterQuote c false r with
      | none =>
        rw [quoted, hafter] at h
        cases h
      | some r' =>
        obtain ⟨b, rfl, hb⟩ := exists_body hafter
        rw [quoted_closed hafter]
        exact ⟨c, b, rfl, hb⟩
    · exact absurd h (hne (numericLexeme_type _))
    · rcases wordLexeme_type (c :: r) with ⟨k, hk⟩ | hk
      · rw [hk] at h
        cases h
      · rw [hk] at h
        cases h
    · exact absurd h (hne (wildcardLexeme_type _ r))

/-- Every quoted token that the lexer delivers is of this kind. -/
theorem token_qstring {src : List Octet} {i : ℤ} {l : Lexer LexFn}
    (h : emit rules (Lexer.tokenAt src .any i) = some (t, l)) (ht : t.type = .qstring) :
    ∃ q b, t.value = q :: (b ++ [q]) ∧ Body b := by
  obtain ⟨m, hm, -⟩ := lexemes.emit_peek src i
  obtain ⟨rfl, -⟩ := Prod.mk.inj (Option.some.inj (h.symm.trans hm))
  rw [Lexemes.peek] at ht ⊢
  split_ifs at ht ⊢
  · cases ht
  · exact lexeme_qstring ht

/-- The passes over such a token. -/
theorem passes_body (ht : t.value = q :: (b ++ [q])) (hb : Body b) :
    ∃ v, secondPass t = some v ∧ firstPass t = some v.length ∧ unquoted t.value = v.takeWhile (· ≠ 0) := by
  have hlen : t.value.length - 2 = b.length := by
    rw [ht, List.length_cons, List.length_append, List.length_singleton]
    omega
  obtain ⟨v, hv⟩ := hb.exists_storeLoop [q] []
  have hstore : secondPass t = some v := by rw [secondPass, hlen, ht, List.tail_cons, hv]
  refine ⟨v, hstore, by rw [firstPass_eq, hstore, Option.map_some], ?_⟩
  rw [unquoted, ← List.nil_append (unquote _ _), ← storeLoop_eq hstore]

/-! ### Round trips -/

/-- The lexer takes a quoted string as one token. -/
theorem takes_quote (hq : IsQuote q) (hs : 0 ∉ s) (r : List Octet) :
    Takes rules (quote q s) r { type := .qstring, value := quote q s } := by
  have hbegins : isspace q = false ∧ q ≠ ch '#' ∧ ¬q = 0 ∧ ¬q = 0x7b ∧ ¬q = 0x7d ∧ ¬q = ch ';' := by
    rcases hq with rfl | rfl <;> decide
  obtain ⟨hspace, hhash, h0, hopen, hclose, htermx⟩ := hbegins
  refine (lexemes.takes_iff ?_ (by simp [lexemes, Final])).mpr ?_
  · rintro _ ⟨⟩
    exact ⟨Bool.eq_false_iff.mp hspace, hhash⟩
  · change lexeme (q :: (escape q s ++ [q] ++ r)) = _
    simp only [lexeme]
    rw [if_neg h0, if_neg hopen, if_neg hclose, if_neg htermx, if_pos (show q = 0x27 ∨ q = 0x22 from hq),
      Authdb.quoted_quote hq hs]

/-- **Quoted strings.** A string that is quoted is one token, whatever follows, and `as_string` returns the string. The
first pass of `as_string` computes the length of what the second one stores. For every quoted token of the lexer neither
leaves the token, and `as_string` returns what is stored, up to the first NUL. -/
theorem quotes_roundTrip :
    (∀ q s r, IsQuote q → 0 ∉ s → ∃ t, Takes rules (quote q s) r t ∧ t.type = .qstring ∧ asString t = some s) ∧
    (∀ t, firstPass t = (secondPass t).map List.length) ∧
    ∀ src i t l, emit rules (Lexer.tokenAt src .any i) = some (t, l) → t.type = .qstring →
      ∃ v, secondPass t = some v ∧ firstPass t = some v.length ∧ asString t = some (v.takeWhile (· ≠ 0)) := by
  refine ⟨?_, firstPass_eq, ?_⟩
  · intro q s r hq hs
    exact ⟨_, takes_quote hq hs r, rfl, congrArg some (Authdb.unquoted_quote hq hs)⟩
  · intro src i t l hemit ht
    obtain ⟨q, b, hvalue, hb⟩ := token_qstring hemit ht
    obtain ⟨v, hsecond, hfirst, hunquoted⟩ := passes_body hvalue hb
    refine ⟨v, hsecond, hfirst, ?_⟩
    rw [asString, ht]
    exact congrArg some hunquoted

/-- A string with quotes, a backslash and a newline. -/
def sampleQuoted : CString := octets "it's a" ++ [backslash, newline, backslash]

theorem quotes_roundTrip_sample :
    (∃ t, Takes rules (quote 0x27 sampleQuoted) (octets "x") t ∧ t.type = .qstring ∧ asString t = some sampleQuoted) ∧
    ∃ t l v, emit rules (Lexer.tokenAt (quote 0x27 sampleQuoted) .any 0) = some (t, l) ∧ secondPass t = some v ∧
      firstPass t = some v.length := by
  refine ⟨quotes_roundTrip.1 0x27 sampleQuoted (octets "x") (.inl rfl) (by decide +kernel), ?_⟩
  obtain ⟨t, htakes, ht, -⟩ := quotes_roundTrip.1 0x27 sampleQuoted [] (.inl rfl) (by decide +kernel)
  have hemit := htakes []
  rw [List.nil_append, List.append_nil] at hemit
  obtain ⟨v, hsecond, hfirst, -⟩ := quotes_roundTrip.2.2 _ _ t _ hemit ht
  exact ⟨t, _, v, hemit, hsecond, hfirst⟩

end PgRouter.Config
