import Mathlib.Data.List.Basic
import Mathlib.Tactic.SplitIfs
import PgRouter.Context

/-!
# Lexers

The lexers of the configuration and of the authentication database have the same state and the same
operations on it, each file having its own copy of them. What differs, the lexer functions, is a parameter.

## The model

A lexer is its text, a position and the position where the current token starts, both of which may come
before the text (`Lexer`). The numbers of line and column, which are only printed, are left out. A lexer
function delivers a token, or none for `T_RESTART`. The loops over the text end, since every round takes
an octet; that `emit` does is asked of the lexer functions (`Rules`).
-/

namespace PgRouter.Text

open Wire

universe u v

/-! ### Characters -/

/-- The octet of a character. -/
def ch (c : Char) : Octet := c.toNat.toUInt8

/-- The octets of a string literal. -/
def octets (s : String) : List Octet := s.toList.map ch

/-- `'\n'`. -/
def newline : Octet := 0x0a

/-- The backslash. -/
def backslash : Octet := 0x5c

/-- `isspace`, in the C locale. -/
def isspace (c : Octet) : Bool := c = 0x20 || (0x09 ≤ c && c ≤ 0x0d)

theorem isspace_ne {c : Octet} (h : isspace c = true) : c ≠ 0 := by
  rintro rfl
  cases h

/-- `isdigit`. -/
def isdigit (c : Octet) : Bool := ch '0' ≤ c && c ≤ ch '9'

/-- `isalpha`, in the C locale. -/
def isalpha (c : Octet) : Bool := (ch 'a' ≤ c && c ≤ ch 'z') || (ch 'A' ≤ c && c ≤ ch 'Z')

/-- `isalnum`, in the C locale. -/
def isalnum (c : Octet) : Bool := isalpha c || isdigit c

/-- `strchr(valid, c) != NULL`. It finds the NUL at the end of `valid`. -/
def strchr (valid : List Octet) (c : Octet) : Bool := c ∈ valid || c = 0

/-- `C_NUMERIC`. -/
def C_NUMERIC : List Octet := octets "0123456789"

/-! ### The state of a lexer -/

/-- `LEXER`. -/
structure Lexer (φ : Type u) where
  /-- The text. -/
  src : List Octet
  /-- The position. -/
  pos : ℤ
  /-- Where the current token starts. -/
  start : ℤ
  /-- The current lexer function, `none` for `NULL`. -/
  f : Option φ
  deriving DecidableEq

namespace Lexer

variable {φ : Type u} {τ : Type v}

/-- `l->src[i]`. In front of the text, where the value is not defined, it is taken to be NUL. -/
def char (l : Lexer φ) : ℤ → Octet
  | .ofNat i => l.src.getD i 0
  | .negSucc _ => 0

/-- `next`. -/
def next (l : Lexer φ) : Octet × Lexer φ :=
  if l.src.length ≤ l.pos then (0, l) else (l.char l.pos, { l with pos := l.pos + 1 })

/-- `restart`. -/
def restart (l : Lexer φ) : Lexer φ := { l with pos := l.start }

/-- `ignore`. -/
def ignore (l : Lexer φ) : Lexer φ := { l with start := l.pos }

/-- `backup`. -/
def backup (l : Lexer φ) : Lexer φ := { l with pos := l.pos - 1 }

/-- `l->f = f`. -/
def setF (l : Lexer φ) (f : Option φ) : Lexer φ := { l with f := f }

/-- The value of a token: the octets from `start` on. -/
def value (l : Lexer φ) : List Octet := (l.src.drop l.start.toNat).take (l.pos - l.start).toNat

/-- `accept_one`. -/
def acceptOne (l : Lexer φ) (valid : List Octet) : Bool × Lexer φ :=
  if l.next.1 ≠ 0 ∧ strchr valid l.next.1 then (true, l.next.2) else (false, l.next.2.backup)

/-- How much of the text is left. -/
def left (l : Lexer φ) : ℕ := (l.src.length - l.pos).toNat

theorem next_left {l : Lexer φ} (h : l.next.1 ≠ 0) : l.next.2.left < l.left := by
  unfold next at h ⊢
  split_ifs at h ⊢ with hpos
  · exact absurd rfl h
  · simp only [left]
    omega

theorem next_left_le (l : Lexer φ) : l.next.2.left ≤ l.left := by
  unfold next
  split_ifs
  · exact le_rfl
  · simp only [left]
    omega

theorem acceptOne_left {l : Lexer φ} {valid : List Octet} (h : (l.acceptOne valid).1 = true) :
    (l.acceptOne valid).2.left < l.left := by
  unfold acceptOne at h ⊢
  split_ifs at h ⊢ with hc
  exact next_left hc.1

/-- `accept_all`. -/
def acceptAll (l : Lexer φ) (valid : List Octet) : ℕ × Lexer φ :=
  if (l.acceptOne valid).1 then
    let (n, l) := acceptAll (l.acceptOne valid).2 valid
    (n + 1, l)
  else (0, (l.acceptOne valid).2)
termination_by l.left
decreasing_by exact acceptOne_left ‹_›

/-- The loop of `lex_comment`. -/
def toLineEnd (l : Lexer φ) : Lexer φ :=
  if l.next.1 ≠ 0 ∧ l.next.1 ≠ newline then toLineEnd l.next.2 else l.next.2
termination_by l.left
decreasing_by
  rename_i h
  exact next_left h.1

/-- The loop of `lex_qstring`, and whether it finds the closing quote. -/
def toQuote (l : Lexer φ) (q : Octet) : Bool × Lexer φ :=
  if l.next.1 = 0 then (false, l.next.2)
  else if l.next.1 = q then (true, l.next.2)
  else if l.next.1 = backslash then toQuote l.next.2.next.2 q
  else toQuote l.next.2 q
termination_by l.left
decreasing_by
  · exact (next_left_le _).trans_lt (next_left ‹_›)
  · exact next_left ‹_›

/-- `lex_comment`, `any` being the function for all tokens. -/
def lexComment (any : φ) (l : Lexer φ) : Lexer φ := (l.setF (some any)).toLineEnd.ignore

/-- `lex_qstring`. `found` and `error` make the tokens. -/
def lexQstring (any : φ) (found : List Octet → τ) (error : τ) (l : Lexer φ) : τ × Lexer φ :=
  let l := (l.setF (some any)).backup
  let (q, l) := l.next
  let (ok, l) := l.toQuote q
  if ok then (found l.value, l.ignore) else (error, l)

theorem toLineEnd_left (l : Lexer φ) : l.toLineEnd.left ≤ l.left := by
  induction l using toLineEnd.induct with
  | case1 l h ih =>
    rw [toLineEnd, if_pos h]
    exact ih.trans (next_left_le l)
  | case2 l h =>
    rw [toLineEnd, if_neg h]
    exact next_left_le l

theorem next_f (l : Lexer φ) : l.next.2.f = l.f := by
  unfold next
  split_ifs <;> rfl

theorem toLineEnd_f (l : Lexer φ) : l.toLineEnd.f = l.f := by
  induction l using toLineEnd.induct with
  | case1 l h ih => rw [toLineEnd, if_pos h, ih, next_f]
  | case2 l h => rw [toLineEnd, if_neg h, next_f]

/-- A lexer function that always delivers a token. -/
def deliver (l : Lexer φ) (g : Lexer φ → τ × Lexer φ) : Option τ × Lexer φ := (some (g l).1, (g l).2)

end Lexer

/-! ### Tokens -/

/-- The lexer functions. The loop of `emit` goes on as long as they deliver no token. Then less of the text
is left, or the function for all tokens is called next. -/
structure Rules (φ : Type u) (τ : Type v) where
  /-- What the lexer function does that is called. -/
  call : φ → Lexer φ → Option τ × Lexer φ
  /-- The function for all tokens. -/
  any : φ
  /-- It goes forward before another function is called. -/
  any_left : ∀ l, (call any l).1 = none → (call any l).2.left < l.left
  /-- Another function that delivers no token leads to it. -/
  other : ∀ l f, f ≠ any → (call f l).1 = none → (call f l).2.f = some any ∧ (call f l).2.left ≤ l.left

variable {φ : Type u} {τ : Type v}

/-- A bound for the rounds of `emit`. -/
def Rules.weight [DecidableEq φ] (R : Rules φ τ) (l : Lexer φ) : ℕ := 2 * l.left + if l.f = some R.any then 0 else 1

theorem Rules.again [DecidableEq φ] (R : Rules φ τ) {l : Lexer φ} {f : φ} (hf : l.f = some f)
    (h : (R.call f l).1 = none) :
    R.weight (R.call f l).2 < R.weight l := by
  unfold weight
  rw [hf]
  by_cases hany : f = R.any
  · subst hany
    have hleft := R.any_left l h
    rw [if_pos rfl]
    split_ifs <;> omega
  · obtain ⟨hnext, hleft⟩ := R.other l f hany h
    rw [if_neg (fun heq => hany (Option.some.inj heq)), hnext, if_pos rfl]
    omega

/-- `emit`. Without a lexer function it returns no token. -/
def emit [DecidableEq φ] (R : Rules φ τ) (l : Lexer φ) : Option (τ × Lexer φ) :=
  match _h : l.f with
  | none => none
  | some f =>
    match _h' : (R.call f l).1 with
    | some t => some (t, (R.call f l).2)
    | none => emit R (R.call f l).2
termination_by R.weight l
decreasing_by exact R.again ‹_› ‹_›

/-! ### Strings -/

/-- The octet that a backslash and `c` stand for. -/
def escaped (c : Octet) : Octet :=
  if c = ch 't' then 0x09 else if c = ch 'r' then 0x0d else if c = ch 'n' then newline else c

/-- The second loop of `as_string` over a quoted string, with its `left`. -/
def unquote : ℕ → List Octet → List Octet
  | 0, _ => []
  | _ + 1, [] => []
  | left + 1, c :: p =>
    if c = backslash then
      match p with
      | [] => []
      | c :: p => escaped c :: unquote (left - 1) p
    else c :: unquote left p

/-- `as_string` of a quoted string, up to the first NUL: the quotes are stripped, and what follows a
backslash is replaced. -/
def unquoted (value : List Octet) : CString := (unquote (value.length - 2) value.tail).takeWhile (· ≠ 0)

end PgRouter.Text
