import PgRouter.Wire.Kernel

/-!
# The context and its connections

The structures of `pgrouter.h`: the settings, the table of backends with what the watcher
knows of each, the users of the authentication database, and a connection to a client or a
backend. Fields that no modelled function reads or writes (locks, listening sockets, counters
of connections) are left out.
-/

namespace PgRouter

open Wire

/-- A `char *`: the octets before the terminating NUL. `Option CString` where the pointer
may be `NULL`. -/
abbrev CString := List Octet

/-- `tolower` in the C locale. -/
def tolower (c : Octet) : Octet := if 0x41 ≤ c ∧ c ≤ 0x5A then c + 0x20 else c

theorem tolower_ne_zero {c : Octet} (h : c ≠ 0) : (tolower c).toNat ≠ 0 := by
  have hc : c.toNat ≠ 0 := fun h0 => h (UInt8.toNat_inj.mp h0)
  unfold tolower
  split
  · rename_i hrange
    have h1 : (0x41 : Octet).toNat ≤ c.toNat := hrange.1
    have h2 : c.toNat ≤ (0x5A : Octet).toNat := hrange.2
    rw [UInt8.toNat_add]
    simp only [UInt8.toNat_ofNat] at h1 h2 ⊢
    omega
  · exact hc

/-- `strncasecmp` of the first `n` characters of two strings. -/
def strncasecmp : List Octet → List Octet → ℕ → ℤ
  | a :: as, b :: bs, n + 1 =>
    let d : ℤ := (tolower a).toNat - (tolower b).toNat
    if d ≠ 0 ∨ a = 0 then d else strncasecmp as bs n
  | _, _, _ => 0

/-- The role a backend plays, a `BACKEND_ROLE_*` constant. -/
inductive BackendRole where
  /-- `BACKEND_ROLE_UNKNOWN`. -/
  | unknown
  /-- `BACKEND_ROLE_MASTER`. -/
  | master
  /-- `BACKEND_ROLE_SLAVE`. -/
  | slave
  deriving DecidableEq

/-- Status of a backend, a `BACKEND_IS_*` constant. -/
inductive BackendStatus where
  /-- `BACKEND_IS_OK`: up and running. -/
  | ok
  /-- `BACKEND_IS_STARTING`: still connecting. -/
  | starting
  /-- `BACKEND_IS_FAILED`: won't connect. -/
  | failed
  /-- `BACKEND_IS_HALFUP`: up, but broken. -/
  | halfup
  deriving DecidableEq

/-- `lag_t`. -/
abbrev Lag := UInt64

/-- `BACKEND`. -/
structure Backend where
  /-- Increment on config reload. -/
  serial : ℤ
  /-- Hostname or ip to connect to. -/
  hostname : CString
  /-- Port to connect to. -/
  port : ℤ
  /-- A `BACKEND_TLS_*` constant. -/
  tls : ℤ
  /-- The role. -/
  role : BackendRole
  /-- The status. -/
  status : BackendStatus
  /-- The weight, an `int`. -/
  weight : ℤ
  /-- Replication lag, in octets. -/
  lag : Lag
  /-- Threshold for the lag. -/
  threshold : Lag
  /-- `health.database`. -/
  healthDatabase : Option CString
  /-- `health.username`. -/
  healthUsername : Option CString
  /-- `health.password`. -/
  healthPassword : Option CString
  deriving DecidableEq

/-- A `BACKEND` that `calloc` has allocated. -/
def Backend.zero : Backend where
  serial := 0
  hostname := []
  port := 0
  tls := 0
  role := .unknown
  status := .ok
  weight := 0
  lag := 0
  threshold := 0
  healthDatabase := none
  healthUsername := none
  healthPassword := none

/-- The settings of a `CONTEXT` that are read at start-up only. -/
structure Startup where
  /-- Frontend bind endpoint. -/
  frontend : Option CString
  /-- Monitor bind endpoint. -/
  monitor : Option CString
  /-- Path to the HBA config. -/
  hbafile : Option CString
  /-- Path to the daemon pidfile. -/
  pidfile : Option CString
  /-- Ciphers to advertise. -/
  tlsCiphers : Option CString
  /-- Path to the certificate. -/
  tlsCertfile : Option CString
  /-- Path to the key. -/
  tlsKeyfile : Option CString
  /-- User to run as. -/
  user : Option CString
  /-- Group to run as. -/
  group : Option CString
  deriving DecidableEq

/-- `CONTEXT`. -/
structure Context where
  /-- How many worker threads. -/
  workers : ℤ
  /-- What messages to log. -/
  loglevel : ℤ
  /-- `health.interval`, how often to check backends. -/
  healthInterval : ℤ
  /-- `health.timeout`, in seconds. -/
  healthTimeout : ℤ
  /-- `health.database`. -/
  healthDatabase : Option CString
  /-- `health.username`. -/
  healthUsername : Option CString
  /-- `health.password`. -/
  healthPassword : Option CString
  /-- `authdb.file`. -/
  authdbFile : Option CString
  /-- The entries of `authdb`, user name and hash. -/
  authdb : List (CString × CString)
  /-- The settings of the start-up. -/
  startup : Startup
  /-- How many backends are up. -/
  okBackends : ℤ
  /-- The backends. -/
  backends : List Backend
  deriving DecidableEq

/-- A `CONTEXT` of zeros, as `main` begins with. -/
def Context.zero : Context where
  workers := 0
  loglevel := 0
  healthInterval := 0
  healthTimeout := 0
  healthDatabase := none
  healthUsername := none
  healthPassword := none
  authdbFile := none
  authdb := []
  startup := ⟨none, none, none, none, none, none, none, none, none⟩
  okBackends := 0
  backends := []

/-- `PARAM`, without the link to the next one. -/
structure Param where
  /-- The name. -/
  name : CString
  /-- The value. -/
  value : CString
  deriving DecidableEq

/-- `CONNECTION`. Its context is a parameter of the functions that read it. -/
structure Connection where
  /-- Which backend it is to, or `-1`. -/
  index : ℤ
  /-- The serial number of the backend. -/
  serial : ℤ
  /-- The host of the backend. -/
  hostname : Option CString
  /-- The port of the backend. -/
  port : ℤ
  /-- The timeout, in milliseconds. -/
  timeout : ℤ
  /-- The user. -/
  username : Option CString
  /-- The database. -/
  database : Option CString
  /-- The user's hash in `authdb`. -/
  pwhash : Option CString
  /-- The salt of the MD5 authentication. -/
  salt : Vector Octet 4
  /-- The parameters of the start-up, in the order of the list. -/
  params : List Param
  /-- The descriptor, or `-1`. -/
  fd : Fd
  deriving DecidableEq

/-- `pgr_conn_init`, `salt` being the random number it draws. -/
def pgrConnInit (salt : Vector Octet 4) : Connection where
  index := -1
  serial := -1
  hostname := none
  port := 0
  timeout := 0
  username := none
  database := none
  pwhash := none
  salt := salt
  params := []
  fd := -1

end PgRouter
