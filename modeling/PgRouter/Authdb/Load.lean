import PgRouter.Foundation.Consumer
import PgRouter.Login.Connection
import PgRouter.Text.Lexer

/-!
# Loading the authentication database

`authdb.c`: its lexer, its parser, and `pgr_authdb`, from the text of the database to the entries of the
context. A line has a user name, the word `md5` and a hash.

## The model

As for the configuration, a parser function is a consumer of tokens, and the loop of `parse` has a bound for
its rounds. Where the code compares tokens with `T_*` constants that it lists, all others are together in
one case. The new entry is put in front of the list, and the list is reversed for the context. The file can
be read, and it is smaller than 2 GiB. Allocation does not fail, and what is printed is left out.
-/

namespace PgRouter.Authdb

open Foundation Wire Text

/-! ### Tokens -/

/-- The types of tokens, `T_*`. -/
inductive TokenType where
  /-- What is not a token. -/
  | error
  /-- The end of the text. -/
  | eos
  /-- A word. -/
  | word
  /-- A quoted string. -/
  | qstring
  /-- The end of a line. -/
  | newline
  deriving DecidableEq

/-- `TOKEN`. -/
structure Token where
  /-- The type. -/
  type : TokenType
  /-- The value, where it is not `NULL`. -/
  value : List Octet := []
  deriving DecidableEq

/-- The lexer functions. -/
inductive LexFn where
  /-- `lex_any`. -/
  | any
  /-- `lex_bareword`. -/
  | bareword
  /-- `lex_comment`. -/
  | comment
  /-- `lex_qstring`. -/
  | qstring
  deriving DecidableEq

/-! ### The lexer functions -/

/-- `lex_any`, after the octet `c` that is not a blank. -/
def lexOne (c : Octet) (l : Lexer LexFn) : Option Token × Lexer LexFn :=
  if c = 0 then (some { type := .eos }, l.setF none)
  else if c = newline then (some { type := .newline }, l.ignore)
  else if c = ch '#' then (none, (l.setF (some .comment)).ignore)
  else if c = 0x27 ∨ c = 0x22 then (none, l.setF (some .qstring))
  else (none, l.setF (some .bareword))

/-- `lex_any`. -/
def lexAny (l : Lexer LexFn) : Option Token × Lexer LexFn :=
  if isspace l.next.1 ∧ l.next.1 ≠ newline then lexAny l.next.2.ignore else lexOne l.next.1 l.next.2
termination_by l.left
decreasing_by
  rename_i h
  exact Lexer.next_left (isspace_ne h.1)

/-- The loop of `lex_bareword`. -/
def toBlank (l : Lexer LexFn) : Lexer LexFn :=
  if l.next.1 = 0 ∨ isspace l.next.1 then l.next.2.backup else toBlank l.next.2
termination_by l.left
decreasing_by
  rename_i h
  exact Lexer.next_left fun hc => h (.inl hc)

/-- `lex_bareword`. -/
def lexBareword (l : Lexer LexFn) : Token × Lexer LexFn :=
  let l := toBlank (l.setF (some .any))
  ({ type := .word, value := l.value }, l.ignore)

/-- The lexer function `f`. -/
def LexFn.call : LexFn → Lexer LexFn → Option Token × Lexer LexFn
  | any, l => lexAny l
  | bareword, l => l.deliver lexBareword
  | comment, l => (none, l.lexComment any)
  | qstring, l =>
    l.deliver (Lexer.lexQstring any (fun value => { type := .qstring, value := value }) { type := .error })

/-! ### `emit` -/

theorem lexOne_left {c : Octet} {l m : Lexer LexFn} (h : lexOne c l = (none, m)) : c ≠ 0 ∧ m.left = l.left := by
  unfold lexOne at h
  by_cases hc : c = 0
  · rw [if_pos hc] at h
    cases h
  · refine ⟨hc, ?_⟩
    rw [if_neg hc] at h
    repeat' split at h
    all_goals cases h; try rfl

theorem lexAny_left {l : Lexer LexFn} (h : (lexAny l).1 = none) : (lexAny l).2.left < l.left := by
  induction l using lexAny.induct with
  | case1 l hspace ih =>
    rw [lexAny, if_pos hspace] at h ⊢
    exact (ih h).trans (Lexer.next_left (isspace_ne hspace.1))
  | case2 l hspace =>
    rw [lexAny, if_neg hspace] at h ⊢
    obtain ⟨hc, hleft⟩ := lexOne_left (Prod.ext h rfl)
    exact hleft.trans_lt (Lexer.next_left hc)

/-- The lexer functions, as rules. -/
def rules : Rules LexFn Token where
  call := LexFn.call
  any := .any
  any_left l h := lexAny_left h
  other l f hf h := by
    cases f with
    | any => exact absurd rfl hf
    | comment =>
      exact ⟨Lexer.toLineEnd_f (l.setF (some .any)), Lexer.toLineEnd_left (l.setF (some .any))⟩
    | bareword => cases h
    | qstring => cases h

/-! ### The parser -/

/-- `PARSER`, and whether its function is still `parse_top`. -/
structure Parser where
  /-- The entries, the last one first. Their number is `count`. -/
  entries : List (CString × CString)
  /-- Whether `f` is not `NULL`. -/
  f : Bool
  deriving DecidableEq

/-- `parser_init`. -/
def parserInit : Parser := ⟨[], true⟩

/-- `p->f = NULL`. -/
def Parser.stop (p : Parser) : Parser := { p with f := false }

/-- `new_entry`. -/
def Parser.newEntry (p : Parser) (user hash : CString) : Parser := { p with entries := (user, hash) :: p.entries }

/-- `as_string`, of a token that is a word or a quoted string. -/
def asString (t : Token) : CString :=
  match t.type with
  | .qstring => unquoted t.value
  | _ => t.value.takeWhile (· ≠ 0)

/-- `"md5"`. -/
def MD5 : CString := octets "md5"

/-- `parse_top`. -/
def parseTop (p : Parser) : Consumer Token (ℤ × Parser) := do
  let t1 ← Consumer.token
  match t1.type with
  | .newline => return (0, p)
  | .word | .qstring => do
    let user := asString t1
    let t2 ← Consumer.token
    match t2.type with
    | .newline => return (1, p.stop)
    | .word =>
      if asString t2 ≠ MD5 then return (1, p.stop)
      else do
        let t3 ← Consumer.token
        match t3.type with
        | .word | .qstring => return (0, p.newEntry user (asString t3))
        | .newline => return (1, p.stop)
        | .error => return (1, p.stop)
        | .eos => return (1, p.stop)
    | .error => return (1, p.stop)
    | .eos => return (0, p.stop)
    | .qstring => return (0, p)
  | .error => return (1, p.stop)
  | .eos => return (0, p.stop)

/-- `parse`, with at most `n` rounds: what it returns, and what has become of the parser. -/
def parse : ℕ → Parser → Consumer Token (Option (ℤ × Parser))
  | 0, _ => return none
  | n + 1, p =>
    if p.f then do
      let (rc, p) ← parseTop p
      if rc = 0 then parse n p else return some (0, p)
    else return some (0, p)

theorem parse_true {n : ℕ} {p : Parser} (h : p.f = true) :
    parse (n + 1) p = (parseTop p).bind fun x => if x.1 = 0 then parse n x.2 else .done (some (0, x.2)) := by
  rw [parse, if_pos h]
  rfl

theorem parse_false {n : ℕ} {p : Parser} (h : p.f = false) : parse (n + 1) p = .done (some (0, p)) := by
  rw [parse, if_neg (by rw [h]; exact Bool.false_ne_true)]
  rfl

/-- `lexer_init`. -/
def lexerInit (text : List Octet) : Lexer LexFn := ⟨text, 0, 0, some .any⟩

/-- `parse`, for a new parser. As many rounds as the text has octets, and two more, are enough. -/
def parseText (text : List Octet) : Option (ℤ × Parser) :=
  ((parse (text.length + 2) parserInit).run (emit rules) (lexerInit text)).bind Prod.fst

/-- `pgr_authdb`: what it returns, and what has become of the context. -/
def pgrAuthdb (c : Context) (text : List Octet) : Option (ℤ × Context) := do
  let (rc, p) ← parseText text
  if rc ≠ 0 then return (rc, c)
  return (0, { c with authdb := p.entries.reverse })

end PgRouter.Authdb
