import PgRouter.Config.Parser

/-!
# Loading the configuration

`pgr_configure`, from the text of the configuration to the context, when the router starts and when it is
told to reload, and `pgr_context`, which completes the context at the start.

## The model

The file can be read, and it is smaller than 2 GiB. Where the code compares a string with `NULL` it has no
result: `none`. An `int` that overflows wraps around.
-/

namespace PgRouter.Config

open Foundation Wire Text

/-! ### From the text to the settings -/

/-- `lexer_init`. -/
def lexerInit (text : List Octet) : Lexer LexFn := ⟨text, 0, 0, some .any⟩

/-- `parse`, for a new parser. As many rounds as the text has octets, and two more, are enough. -/
def parseText (text : List Octet) : Option (ℤ × Parser) :=
  ((parse (text.length + 2) parserInit).run (emit rules) (lexerInit text)).bind Prod.fst

/-! ### Backends -/

/-- The digits of a port. -/
def portLoop (i : UInt32) : List Octet → Option UInt32
  | [] => some i
  | c :: p => if isdigit c then portLoop (i * 10 + digit c) p else none

/-- `hostport`, for the host and the port of a backend. -/
def hostport (s : CString) (b : Backend) : ℤ × Backend :=
  let b := { b with hostname := s.takeWhile (· ≠ ch ':') }
  match s.dropWhile (· ≠ ch ':') with
  | [] => (0, { b with port := 5432 })
  | _ :: p =>
    match portLoop 0 p with
    | some i => (0, { b with port := i.toInt32.toInt })
    | none => (1, b)

/-- `get_int`. -/
def getInt (a : ℤ) (b c : Option ℤ) : ℤ := c.getD (b.getD a)

/-- What is set for the backend `b` with the host and the port `x`. -/
def fill (p : Parser) (d b : Stanza) (x : Backend) : Backend :=
  { x with
    serial := x.serial + 1
    tls := getInt TLS_OFF d.tls b.tls
    threshold := UInt64.ofInt (getInt TLS_OFF d.lag b.lag)
    weight := getInt TLS_OFF d.weight b.weight
    healthDatabase := some (p.healthDatabase.getD (octets "postgres"))
    healthUsername := some (p.healthUsername.getD (octets "postgres"))
    healthPassword := some (p.healthPassword.getD []) }

/-- The loop over the backends, and whether it returns `1`. -/
def fillAll (p : Parser) (d : Stanza) : List Stanza → ℤ × List Backend
  | [] => (0, [])
  | b :: bs =>
    let (rc, x) := hostport (b.id.getD []) .zero
    if rc ≠ 0 then (1, x :: bs.map fun _ => .zero)
    else
      let (rc, xs) := fillAll p d bs
      (rc, fill p d b x :: xs)

/-- The loop succeeds if each backend has a host and a port. -/
theorem fillAll_eq_zero_iff {p : Parser} {d : Stanza} {bs : List Stanza} :
    (fillAll p d bs).1 = 0 ↔ ∀ b ∈ bs, (hostport (b.id.getD []) .zero).1 = 0 := by
  induction bs with
  | nil => exact iff_of_true rfl fun b hb => absurd hb List.not_mem_nil
  | cons b bs ih =>
    rw [List.forall_mem_cons, ← ih, fillAll]
    dsimp only
    split_ifs with hport
    · exact iff_of_false one_ne_zero fun h => hport h.1
    · exact (and_iff_right (not_not.mp hport)).symm

/-- Then all of them are filled. -/
theorem fillAll_ok {p : Parser} {d : Stanza} {bs : List Stanza} (h : (fillAll p d bs).1 = 0) :
    (fillAll p d bs).2 = bs.map fun b => fill p d b (hostport (b.id.getD []) .zero).2 := by
  induction bs with
  | nil => rfl
  | cons b bs ih =>
    simp only [fillAll] at h ⊢
    split_ifs at h ⊢ with hport
    · cases h
    · exact congrArg (List.cons _) (ih h)

/-! ### The context -/

/-- What can be updated. -/
def update (c : Context) (p : Parser) : Context :=
  { c with
    workers := p.workers.getD c.workers
    loglevel := p.loglevel.getD c.loglevel
    healthInterval := p.healthInterval.getD c.healthInterval
    healthTimeout := p.healthTimeout.getD c.healthTimeout
    healthDatabase := p.healthDatabase.or c.healthDatabase
    healthUsername := p.healthUsername.or c.healthUsername
    healthPassword := p.healthPassword.or c.healthPassword }

/-- What becomes of a setting that is read at start-up only: when reloading, the new value is compared with
the old one, which stays. -/
def startupOnly (reload : Bool) (new old : Option CString) : Option (Option CString) :=
  match new with
  | none => some old
  | some v => if reload then old.map some else some (some v)

theorem startupOnly_start (new old : Option CString) : startupOnly false new old = some (new.or old) := by
  cases new <;> rfl

theorem startupOnly_reload (new old : Option CString) :
    startupOnly true new old = if new.isSome → old.isSome then some old else none := by
  cases new with
  | none => rfl
  | some v => cases old <;> rfl

/-- The settings that are read at start-up only. -/
def updateStartup (reload : Bool) (c : Context) (p : Parser) : Option Context := do
  let frontend ← startupOnly reload p.listen c.startup.frontend
  let monitor ← startupOnly reload p.monitor c.startup.monitor
  let hbafile ← startupOnly reload p.hbafile c.startup.hbafile
  let pidfile ← startupOnly reload p.pidfile c.startup.pidfile
  let authdbFile ← startupOnly reload p.authdb c.authdbFile
  let tlsCiphers ← startupOnly reload p.tlsCiphers c.startup.tlsCiphers
  let tlsCertfile ← startupOnly reload p.tlsCertfile c.startup.tlsCertfile
  let tlsKeyfile ← startupOnly reload p.tlsKeyfile c.startup.tlsKeyfile
  let user ← startupOnly reload p.user c.startup.user
  let group ← startupOnly reload p.group c.startup.group
  return { c with
    authdbFile := authdbFile
    startup := ⟨frontend, monitor, hbafile, pidfile, tlsCiphers, tlsCertfile, tlsKeyfile, user, group⟩ }

/-- `pgr_configure`: what it returns, and what has become of the context. -/
def pgrConfigure (c : Context) (text : List Octet) (reload : Bool) :
    Option (ℤ × Context) := do
  let (rc, p) ← parseText text
  if rc ≠ 0 then return (rc, c)
  let c ← updateStartup reload (update c p) p
  if reload then return (0, c)
  let (rc, backends) := fillAll p (p.backends.headD (makeBackend none)) p.backends.tail
  return (rc, { c with backends := backends })

/-- `DEFAULT_FRONTEND_BIND`. -/
def DEFAULT_FRONTEND_BIND : CString := octets "*:5432"

/-- `DEFAULT_MONITOR_BIND`. -/
def DEFAULT_MONITOR_BIND : CString := octets "127.0.0.1:14231"

/-- `pgr_context`. -/
def pgrContext (c : Context) : Context :=
  { c with
    backends := c.backends.map fun b => { b with status := .starting }
    startup := { c.startup with
      frontend := some (c.startup.frontend.getD DEFAULT_FRONTEND_BIND)
      monitor := some (c.startup.monitor.getD DEFAULT_MONITOR_BIND) } }

end PgRouter.Config
