import PgRouter.Config.Lexer
import PgRouter.Foundation.Consumer

/-!
# The parser of the configuration

The parser functions of `config.c`, for the top level and for the three kinds of stanzas, which take
tokens and record the settings, and the loop that calls them.

## The model

A parser function is a consumer of tokens, which says what it returns and what has become of the parser.
The loop of `parse` has a bound for its rounds. Of a value and whether it is set the value is an `Option`.
The list of backends begins with the defaults, and a backend is referred to by its place in the list. How a
`double` is converted is a parameter. Allocation does not fail, and what is printed is left out.
-/

namespace PgRouter.Config

open Foundation Text

/-! ### The state of the parser -/

/-- `struct _backend`. -/
structure Stanza where
  /-- Its name, none for the defaults. -/
  id : Option CString
  /-- `tls`. -/
  tls : Option ℤ
  /-- `weight`. -/
  weight : Option ℤ
  /-- `lag`. -/
  lag : Option ℤ
  deriving DecidableEq

/-- `BACKEND_TLS_OFF`. -/
def TLS_OFF : ℤ := 0

/-- `BACKEND_TLS_VERIFY`. -/
def TLS_VERIFY : ℤ := 1

/-- `BACKEND_TLS_NOVERIFY`. -/
def TLS_NOVERIFY : ℤ := 2

/-- `make_backend`. -/
def makeBackend : Option CString → Stanza
  | some id => ⟨some id, none, none, none⟩
  | none => ⟨none, some TLS_OFF, some 1, some 100⟩

/-- The parser functions. -/
inductive ParseFn where
  /-- `parse_top`. -/
  | top
  /-- `parse_backend`. -/
  | backend
  /-- `parse_health`. -/
  | health
  /-- `parse_tls`. -/
  | tls
  deriving DecidableEq

/-- `PARSER`. -/
structure Parser where
  /-- The defaults, and the backends. -/
  backends : List Stanza
  /-- The place of the current backend. -/
  current : ℕ
  /-- `workers`. -/
  workers : Option ℤ
  /-- `loglevel`. -/
  loglevel : Option ℤ
  /-- `health_interval`. -/
  healthInterval : Option ℤ
  /-- `health_timeout`. -/
  healthTimeout : Option ℤ
  /-- `health_database`. -/
  healthDatabase : Option CString
  /-- `health_username`. -/
  healthUsername : Option CString
  /-- `health_password`. -/
  healthPassword : Option CString
  /-- `listen`. -/
  listen : Option CString
  /-- `monitor`. -/
  monitor : Option CString
  /-- `hbafile`. -/
  hbafile : Option CString
  /-- `pidfile`. -/
  pidfile : Option CString
  /-- `tls_ciphers`. -/
  tlsCiphers : Option CString
  /-- `tls_certfile`. -/
  tlsCertfile : Option CString
  /-- `tls_keyfile`. -/
  tlsKeyfile : Option CString
  /-- `user`. -/
  user : Option CString
  /-- `group`. -/
  group : Option CString
  /-- `authdb`. -/
  authdb : Option CString
  /-- The current parser function, `none` for `NULL`. -/
  f : Option ParseFn
  deriving DecidableEq

/-- `parser_init`. -/
def parserInit : Parser where
  backends := [makeBackend none]
  current := 0
  workers := none
  loglevel := none
  healthInterval := none
  healthTimeout := none
  healthDatabase := none
  healthUsername := none
  healthPassword := none
  listen := none
  monitor := none
  hbafile := none
  pidfile := none
  tlsCiphers := none
  tlsCertfile := none
  tlsKeyfile := none
  user := none
  group := none
  authdb := none
  f := some .top

namespace Parser

/-- `backend(p, id)` as the current backend. It is appended if there is none of that name. -/
def backend (p : Parser) (id : CString) : Parser :=
  match p.backends.findIdx? fun b => b.id = some id with
  | some i => { p with current := i }
  | none => { p with backends := p.backends ++ [makeBackend (some id)], current := p.backends.length }

/-- A change of the current backend. -/
def setCurrent (p : Parser) (g : Stanza → Stanza) : Parser := { p with backends := p.backends.modify p.current g }

/-- `p->f = f`. -/
def setF (p : Parser) (f : Option ParseFn) : Parser := { p with f := f }

end Parser

/-! ### Values of tokens -/

/-- `as_string`. -/
def asString (t : Token) : Option CString :=
  match t.type with
  | .bareword | .address => some (t.value.takeWhile (· ≠ 0))
  | .qstring => some (unquoted t.value)
  | _ => none

/-- `semval.i` as an `int`. -/
def asSigned (t : Token) : ℤ := t.i.toInt32.toInt

/-- The `int` of a token, if its type is one of `types`. -/
def asInt (types : List TokenType) (t : Token) : Option ℤ := if t.type ∈ types then some (asSigned t) else none

/-! ### The parser functions -/

/-- What a parser function does. It returns `0` if it has succeeded. -/
abbrev Parse := Consumer Token (ℤ × Parser)

/-- A keyword with a string. -/
def withString (p : Parser) (set : CString → Parser) : Parse := do
  let t2 ← Consumer.token
  match asString t2 with
  | some s => return (0, set s)
  | none => return (-1, p)

/-- A keyword with a number, which is at least `lo`. -/
def withInt (p : Parser) (value : Token → Option ℤ) (lo : ℤ) (set : ℤ → Parser) : Parse := do
  let t2 ← Consumer.token
  match value t2 with
  | some i => return if i < lo then (1, p) else (0, set i)
  | none => return (1, p)

/-- A keyword with another keyword, for which `value` has a number. -/
def withKeyword (p : Parser) (value : Keyword → Option ℤ) (set : ℤ → Parser) : Parse := do
  let t2 ← Consumer.token
  match t2.type with
  | .keyword k =>
    match value k with
    | some i => return (0, set i)
    | none => return (1, p)
  | _ => return (1, p)

/-- A keyword with an opening brace, from where on `f` is the parser function. -/
def withOpen (p : Parser) (f : ParseFn) : Parse := do
  let t2 ← Consumer.token
  if t2.type = .open then return (0, p.setF (some f)) else return (-1, p)

/-- The number of a log level: `LOG_ERR`, `LOG_INFO`, `LOG_DEBUG`. -/
def logLevel : Keyword → Option ℤ
  | .error => some 3
  | .info => some 6
  | .debug => some 7
  | _ => none

/-- The number of a TLS mode. -/
def tlsMode : Keyword → Option ℤ
  | .on => some TLS_VERIFY
  | .off => some TLS_OFF
  | .skipverify => some TLS_NOVERIFY
  | _ => none

/-- `parse_top`. -/
def parseTop (p : Parser) : Parse := do
  let t1 ← Consumer.token
  match t1.type with
  | .keyword .listen => withString p fun s => { p with listen := some s }
  | .keyword .monitor => withString p fun s => { p with monitor := some s }
  | .keyword .hba => withString p fun s => { p with hbafile := some s }
  | .keyword .user => withString p fun s => { p with user := some s }
  | .keyword .group => withString p fun s => { p with group := some s }
  | .keyword .pidfile => withString p fun s => { p with pidfile := some s }
  | .keyword .authdb => withString p fun s => { p with authdb := some s }
  | .keyword .log => withKeyword p logLevel fun i => { p with loglevel := some i }
  | .keyword .workers => withInt p (asInt [.integer, .time, .size]) 1 fun i => { p with workers := some i }
  | .keyword .tls => withOpen p .tls
  | .keyword .health => withOpen p .health
  | .keyword .backend => do
    let t2 ← Consumer.token
    if t2.type = .keyword .default then withOpen { p with current := 0 } .backend
    else
      match asString t2 with
      | some s => withOpen (p.backend s) .backend
      | none => return (-1, p)
  | .eos => return (0, p.setF none)
  | _ => return (1, p.setF none)

/-- `(int)(f * 100)`, where `f` is not negative. What an `int` cannot hold becomes the least one. -/
def percent (f : Float) : ℤ := if f * 100 < 2147483648 then (f * 100).toUInt32.toNat else -2147483648

/-- `parse_backend`. -/
def parseBackend (p : Parser) : Parse := do
  let t1 ← Consumer.token
  match t1.type with
  | .keyword .tls => withKeyword p tlsMode fun i => p.setCurrent fun b => { b with tls := some i }
  | .keyword .lag => withInt p (asInt [.integer, .size]) 0 fun i => p.setCurrent fun b => { b with lag := some i }
  | .keyword .weight =>
    withInt p (fun t => if t.type = .decimal then some (percent t.f) else asInt [.integer] t) 0 fun i =>
      p.setCurrent fun b => { b with weight := some i }
  | .close => return (0, p.setF (some .top))
  | .termx => return (0, p)
  | _ => return (1, p)

/-- `parse_health`. -/
def parseHealth (p : Parser) : Parse := do
  let t1 ← Consumer.token
  match t1.type with
  | .keyword .database => withString p fun s => { p with healthDatabase := some s }
  | .keyword .username => withString p fun s => { p with healthUsername := some s }
  | .keyword .password => withString p fun s => { p with healthPassword := some s }
  | .keyword .timeout => withInt p (asInt [.integer, .time]) 0 fun i => { p with healthTimeout := some i }
  | .keyword .check => withInt p (asInt [.integer, .time]) 0 fun i => { p with healthInterval := some i }
  | .close => return (0, p.setF (some .top))
  | _ => return (1, p)

/-- `parse_tls`. -/
def parseTls (p : Parser) : Parse := do
  let t1 ← Consumer.token
  match t1.type with
  | .keyword .ciphers => withString p fun s => { p with tlsCiphers := some s }
  | .keyword .cert => withString p fun s => { p with tlsCertfile := some s }
  | .keyword .key => withString p fun s => { p with tlsKeyfile := some s }
  | .close => return (0, p.setF (some .top))
  | _ => return (1, p)

/-- The parser function `f`. -/
def ParseFn.call : ParseFn → Parser → Parse
  | top => parseTop
  | backend => parseBackend
  | health => parseHealth
  | tls => parseTls

/-- `parse`, with at most `n` rounds: what it returns, and what has become of the parser. -/
def parse : ℕ → Parser → Consumer Token (Option (ℤ × Parser))
  | 0, _ => return none
  | n + 1, p =>
    match p.f with
    | none => return some (0, p)
    | some f => do
      let (rc, p) ← f.call p
      if rc = 0 then parse n p else return some (0, p)

theorem parse_some {n : ℕ} {p : Parser} {f : ParseFn} (h : p.f = some f) :
    parse (n + 1) p = (f.call p).bind fun x =>
      if x.1 = 0 then parse n x.2 else .done (some (0, x.2)) := by
  rw [parse, h]
  rfl

theorem parse_none {n : ℕ} {p : Parser} (h : p.f = none) :
    parse (n + 1) p = .done (some (0, p)) := by
  rw [parse, h]
  rfl

end PgRouter.Config
