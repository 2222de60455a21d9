import PgRouter.Text.Lexer

/-!
# The lexer of the configuration

`lex_any` of `config.c` and the lexer functions for the kinds of tokens, which it switches to. They look
at the text by `next` and go back by `backup` and `restart`, the latter two not always by as much as
`next` has advanced: at the end of the text `next` does not advance.

## The model

A number with a decimal point is a `double`, of 64 bits, as the loop over its digits computes it (`decimalStep`).
Integers are `unsigned`, of 32 bits, and wrap around.
-/

namespace PgRouter.Config

open Wire Text

/-! ### Tokens -/

/-- The keywords, `T_KEYWORD_*`. -/
inductive Keyword where
  | authdb | backend | cert | check | ciphers | database | debug | default | error | group | hba | health
  | info | key | lag | listen | log | monitor | off | on | password | pidfile | skipverify | timeout | tls
  | user | username | weight | workers
  deriving DecidableEq

/-- `KEYWORDS`. -/
def KEYWORDS : List (Keyword × List Octet) :=
  [(.authdb, octets "authdb"), (.backend, octets "backend"), (.cert, octets "cert"), (.check, octets "check"),
    (.ciphers, octets "ciphers"), (.database, octets "database"), (.debug, octets "debug"),
    (.default, octets "default"), (.error, octets "error"), (.group, octets "group"), (.hba, octets "hba"),
    (.health, octets "health"), (.info, octets "info"), (.key, octets "key"), (.lag, octets "lag"),
    (.listen, octets "listen"), (.log, octets "log"), (.monitor, octets "monitor"), (.off, octets "off"),
    (.on, octets "on"), (.password, octets "password"), (.pidfile, octets "pidfile"),
    (.skipverify, octets "skipverify"), (.timeout, octets "timeout"), (.tls, octets "tls"),
    (.user, octets "user"), (.username, octets "username"), (.weight, octets "weight"),
    (.workers, octets "workers")]

/-- The types of tokens, `T_*`. -/
inductive TokenType where
  /-- The end of the text. -/
  | eos
  /-- What is not a token. -/
  | error
  /-- An opening brace. -/
  | open
  /-- A closing brace. -/
  | close
  /-- A semicolon. -/
  | termx
  /-- A keyword. -/
  | keyword (k : Keyword)
  /-- A word that is no keyword. -/
  | bareword
  /-- A number with a decimal point. -/
  | decimal
  /-- A number. -/
  | integer
  /-- An address, with a port or without. -/
  | address
  /-- A period of time. -/
  | time
  /-- A size. -/
  | size
  /-- A quoted string. -/
  | qstring
  deriving DecidableEq

/-- `TOKEN`. -/
structure Token where
  /-- The type. -/
  type : TokenType
  /-- The value, where it is not `NULL`. -/
  value : List Octet := []
  /-- `semval.i`. -/
  i : UInt32 := 0
  /-- `semval.f`. -/
  f : Float := 0
  deriving DecidableEq

/-- The lexer functions. -/
inductive LexFn where
  /-- `lex_any`. -/
  | any
  /-- `lex_bareword`. -/
  | bareword
  /-- `lex_comment`. -/
  | comment
  /-- `lex_numeric`. -/
  | numeric
  /-- `lex_qstring`. -/
  | qstring
  /-- `lex_wildcard`. -/
  | wildcard
  deriving DecidableEq

/-! ### The lexer functions -/

/-- `lex_any`, after the octet `c` that is not a blank. -/
def lexOne (c : Octet) (l : Lexer LexFn) : Option Token × Lexer LexFn :=
  if c = 0 then (some { type := .eos }, l.setF none)
  else if c = 0x7b then (some { type := .open }, l.ignore)
  else if c = 0x7d then (some { type := .close }, l.ignore)
  else if c = ch ';' then (some { type := .termx }, l.ignore)
  else if c = ch '#' then (none, (l.setF (some .comment)).ignore)
  else if c = 0x27 ∨ c = 0x22 then (none, l.setF (some .qstring))
  else if isdigit c then (none, l.setF (some .numeric))
  else if isalnum c ∨ c = ch '/' then (none, l.setF (some .bareword))
  else if c = ch '*' then (none, l.setF (some .wildcard))
  else (some { type := .error }, l.setF none)

/-- `lex_any`. A newline is a blank. -/
def lexAny (l : Lexer LexFn) : Option Token × Lexer LexFn :=
  if isspace l.next.1 then lexAny l.next.2.ignore else lexOne l.next.1 l.next.2
termination_by l.left
decreasing_by exact Lexer.next_left (isspace_ne ‹_›)

/-- `C_ALPHANUMERIC "_-+/:.,!"`. -/
def WORD : List Octet :=
  octets "abcdefghijklmnopqrstuvwxyz" ++ octets "ABCDEFGHIJKLMNOPQRSTUVWXYZ" ++ C_NUMERIC ++ octets "_-+/:.,!"

/-- The first keyword whose first characters are `value`. -/
def findKeyword (value : List Octet) : Option Keyword :=
  (KEYWORDS.find? fun k => strncasecmp (value ++ [0]) (k.2 ++ [0]) value.length = 0).map Prod.fst

/-- `lex_bareword`. -/
def lexBareword (l : Lexer LexFn) : Token × Lexer LexFn :=
  let l := ((l.setF (some .any)).acceptAll WORD).2
  match findKeyword l.value with
  | some k => ({ type := .keyword k }, l.ignore)
  | none => ({ type := .bareword, value := l.value }, l.ignore)

/-- `n + 1` groups of digits, with dots between them. -/
def dotted : ℕ → Lexer LexFn → Bool × Lexer LexFn
  | 0, l =>
    let (n, l) := l.acceptAll C_NUMERIC
    (n ≠ 0, l)
  | n + 1, l =>
    let (k, l) := l.acceptAll C_NUMERIC
    if k = 0 then (false, l)
    else
      let (dot, l) := l.acceptOne [ch '.']
      if dot then dotted n l else (false, l)

/-- `c - '0'`. -/
def digit (c : Octet) : UInt32 := c.toUInt32 - 48

/-- The loops of `lex_numeric` over digits, each of which does `g`. -/
def digitLoop {α : Type} (g : α → Octet → α) (l : Lexer LexFn) (a : α) : α × Lexer LexFn :=
  if l.next.1 = 0 then (a, l.next.2)
  else if strchr C_NUMERIC l.next.1 then digitLoop g l.next.2 (g a l.next.1)
  else (a, l.next.2.backup)
termination_by l.left
decreasing_by exact Lexer.next_left ‹_›

/-- The loop over the digits of an integer. -/
def integerLoop : Lexer LexFn → UInt32 → UInt32 × Lexer LexFn := digitLoop fun ival c => ival * 10 + digit c

/-- What a digit behind the decimal point does to `fval` and `factor`. -/
def decimalStep (x : Float × Float) (c : Octet) : Float × Float := (x.1 + (digit c).toFloat / x.2, x.2 * 10)

/-- The loop over the digits behind the decimal point. -/
def decimalLoop : Lexer LexFn → Float × Float → (Float × Float) × Lexer LexFn := digitLoop decimalStep

/-- `1024`, once for `k`, twice for `m` and three times for `g`. -/
def sizeFactor (c : Octet) : UInt32 :=
  if c = ch 'g' ∨ c = ch 'G' then 1024 * 1024 * 1024
  else if c = ch 'm' ∨ c = ch 'M' then 1024 * 1024
  else if c = ch 'k' ∨ c = ch 'K' then 1024
  else 1

/-- `60`, once for `m` and twice for `h`. -/
def timeFactor (c : Octet) : UInt32 :=
  if c = ch 'h' ∨ c = ch 'H' then 60 * 60 else if c = ch 'm' ∨ c = ch 'M' then 60 else 1

/-- Whether the number that `c` follows is a size, and which character `c` is then. If it is not, the lexer
is where the number starts. -/
def sizeUnit (l : Lexer LexFn) (c : Octet) : Bool × Octet × Lexer LexFn :=
  if strchr (octets "kKmMgGbB") c then
    let (c, l) := if c ≠ ch 'b' ∧ c ≠ ch 'B' then l.next else (c, l)
    if c = ch 'b' ∨ c = ch 'B' then (true, c, l) else (false, c, l.restart)
  else (false, c, l)

/-- `lex_numeric`, behind the digits of an integer. -/
def lexUnit (ival : UInt32) (l : Lexer LexFn) : Token × Lexer LexFn :=
  let (c, l) := l.next
  if c = ch '.' then
    let ((fval, _), l) := decimalLoop l (ival.toFloat, 10)
    ({ type := .decimal, value := l.value, f := fval }, l.ignore)
  else
    let (found, c', l) := sizeUnit l c
    if found then ({ type := .size, value := l.value, i := ival * sizeFactor c }, l.ignore)
    else if strchr (octets "sSmMhH") c' then
      ({ type := .time, value := l.value, i := ival * timeFactor c' }, l.ignore)
    else
      let l := l.backup
      ({ type := .integer, value := l.value, i := ival }, l.ignore)

/-- `lex_numeric`, for what is not an address. -/
def lexNumber (l : Lexer LexFn) : Token × Lexer LexFn :=
  let (ival, l) := integerLoop l 0
  lexUnit ival l

/-- `lex_numeric`. -/
def lexNumeric (l : Lexer LexFn) : Token × Lexer LexFn :=
  let (ok, m) := dotted 3 (l.setF (some .any))
  if ok then
    let (colon, m) := m.acceptOne [ch ':']
    if colon then
      let (n, m) := m.acceptAll C_NUMERIC
      if n = 0 then ({ type := .error }, m) else ({ type := .address, value := m.value }, m.ignore)
    else ({ type := .address, value := m.value }, m.ignore)
  else lexNumber m.restart

/-- `lex_wildcard`. -/
def lexWildcard (l : Lexer LexFn) : Token × Lexer LexFn :=
  let (colon, l) := (l.setF (some .any)).acceptOne [ch ':']
  if colon then
    let (n, l) := l.acceptAll C_NUMERIC
    if n = 0 then ({ type := .error }, l) else ({ type := .address, value := l.value }, l.ignore)
  else ({ type := .error }, l)

/-- The lexer function `f`. -/
def LexFn.call : LexFn → Lexer LexFn → Option Token × Lexer LexFn
  | any, l => lexAny l
  | bareword, l => l.deliver lexBareword
  | comment, l => (none, l.lexComment any)
  | numeric, l => l.deliver lexNumeric
  | qstring, l =>
    l.deliver (Lexer.lexQstring any (fun value => { type := .qstring, value := value }) { type := .error })
  | wildcard, l => l.deliver lexWildcard

/-! ### `emit` -/

theorem lexOne_left {c : Octet} {l m : Lexer LexFn} (h : lexOne c l = (none, m)) : c ≠ 0 ∧ m.left = l.left := by
  unfold lexOne at h
  by_cases hc : c = 0
  · rw [if_pos hc] at h
    cases h
  · refine ⟨hc, ?_⟩
    rw [if_neg hc] at h
    repeat' split at h
    all_goals cases h; try rfl

theorem lexAny_left {l : Lexer LexFn} (h : (lexAny l).1 = none) : (lexAny l).2.left < l.left := by
  induction l using lexAny.induct with
  | case1 l hspace ih =>
    rw [lexAny, if_pos hspace] at h ⊢
    exact (ih h).trans (Lexer.next_left (isspace_ne hspace))
  | case2 l hspace =>
    rw [lexAny, if_neg hspace] at h ⊢
    obtain ⟨hc, hleft⟩ := lexOne_left (Prod.ext h rfl)
    exact hleft.trans_lt (Lexer.next_left hc)

/-- The lexer functions, as rules. -/
def rules : Rules LexFn Token where
  call := LexFn.call
  any := .any
  any_left l h := lexAny_left h
  other l f hf h := by
    cases f with
    | any => exact absurd rfl hf
    | comment =>
      exact ⟨Lexer.toLineEnd_f (l.setF (some .any)), Lexer.toLineEnd_left (l.setF (some .any))⟩
    | bareword => cases h
    | numeric => cases h
    | qstring => cases h
    | wildcard => cases h

end PgRouter.Config
