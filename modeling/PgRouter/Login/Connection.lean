import Mathlib.Data.List.TakeWhile
import PgRouter.Context
import PgRouter.Login.Md5
import PgRouter.Wire.Framing

/-!
# What a login reads and writes

The functions of `conn.c` under `pgr_conn_accept`, and `pgr_auth_find` of `authdb.c`: the
messages to the client, the parameters of a StartupMessage, and the test of a password.

## The model

`extract_params` and `check_auth` look at the octets of the buffer. Where they would look at
memory that is not theirs, behind the end of the buffer or at `NULL`, there is no result:
`none`. The entries of `authdb` do not change during a login. Allocation does not fail, and
debugging output is left out.
-/

namespace PgRouter

/-- `pgr_auth_find`: the hash of the first entry with that user name. -/
def pgrAuthFind (ctx : Context) (username : CString) : Option CString :=
  (ctx.authdb.find? fun e => e.1 = username).map Prod.snd

end PgRouter

namespace PgRouter.Login

open Foundation Wire

/-! ### Messages -/

/-- `auth_md5_message`. -/
def authMd5Message (m : Mbuf) (c : Connection) : ℤ × Mbuf :=
  pgrMbufCat m ([0x52, 0, 0, 0, 0xc, 0, 0, 0, 0x5] ++ c.salt.toList)

/-- `auth_ok_message`. -/
def authOkMessage (m : Mbuf) : ℤ × Mbuf := pgrMbufCat m [0x52, 0, 0, 0, 0x8, 0, 0, 0, 0]

/-- `ready_for_query`. -/
def readyForQuery (m : Mbuf) : ℤ × Mbuf := pgrMbufCat m [0x5a, 0, 0, 0, 0x5, 0x49]

/-- What `error_response` appends, piece by piece. -/
def errorPieces (sev code msg : CString) : List (List Octet) :=
  let len := 1 + 4 + (1 + sev.length + 1) + (1 + code.length + 1) + (1 + msg.length + 1) + 1
  [[0x45], be32 len, [0x53], sev ++ [0], [0x43], code ++ [0], [0x4d], msg ++ [0], [0]]

/-- `error_response`, the message being formatted. A piece for which there is no room is
skipped. -/
def errorResponse (m : Mbuf) (sev code msg : CString) : Mbuf :=
  (errorPieces sev code msg).foldl (fun m d => (pgrMbufCat m d).2) m

/-- `"ERROR"`. -/
def ERROR : CString := [0x45, 0x52, 0x52, 0x4f, 0x52]

/-- `"28P01"`, invalid_password. -/
def INVALID_PASSWORD : CString := [0x32, 0x38, 0x50, 0x30, 0x31]

/-- `"(null)"`, what is printed for `NULL`. -/
def NULL_TEXT : CString := [0x28, 0x6e, 0x75, 0x6c, 0x6c, 0x29]

/-- `password authentication failed for user "%s"`, formatted. -/
def failureText (username : Option CString) : CString :=
  [0x70, 0x61, 0x73, 0x73, 0x77, 0x6f, 0x72, 0x64, 0x20,
    0x61, 0x75, 0x74, 0x68, 0x65, 0x6e, 0x74, 0x69, 0x63, 0x61, 0x74, 0x69, 0x6f, 0x6e, 0x20,
    0x66, 0x61, 0x69, 0x6c, 0x65, 0x64, 0x20, 0x66, 0x6f, 0x72, 0x20, 0x75, 0x73, 0x65, 0x72, 0x20, 0x22] ++
    username.getD NULL_TEXT ++ [0x22]

/-! ### Parameters -/

/-- `"user"`. -/
def USER : CString := [0x75, 0x73, 0x65, 0x72]

/-- `"database"`. -/
def DATABASE : CString := [0x64, 0x61, 0x74, 0x61, 0x62, 0x61, 0x73, 0x65]

/-- The string at address `x`, if its NUL is in the buffer. -/
def cstring (m : Mbuf) (x : ℕ) : Option CString :=
  if 0 ∈ slice m.buf x m.len then some ((slice m.buf x m.len).takeWhile (· ≠ 0)) else none

/-- A string ends before the end of the buffer. -/
theorem cstring_length {m : Mbuf} {x : ℕ} {s : CString} (h : cstring m x = some s) : x + s.length < m.len := by
  unfold cstring at h
  split_ifs at h with hmem
  cases h
  have hne : (slice m.buf x m.len).dropWhile (· ≠ 0) ≠ [] := by
    intro hnil
    rw [List.dropWhile_eq_nil_iff] at hnil
    exact absurd (hnil 0 hmem) (by decide)
  have hpos := List.length_pos_iff.mpr hne
  have hlen := congrArg List.length (List.takeWhile_append_dropWhile (p := fun c : Octet => decide (c ≠ 0))
    (l := slice m.buf x m.len))
  rw [List.length_append, length_slice] at hlen
  omega

/-- `*p` is a new parameter, and `user` and `database` are extracted. -/
def setParam (ctx : Context) (c : Connection) (name value : CString) : Connection :=
  let c := { c with params := c.params ++ [⟨name, value⟩] }
  if name = USER then { c with username := some value, pwhash := pgrAuthFind ctx value }
  else if name = DATABASE then { c with database := some value }
  else c

/-- The loop of `extract_params`, `x` being where it is in the buffer. -/
def extractLoop (ctx : Context) (m : Mbuf) (c : Connection) (x : ℕ) : Option (ℤ × Connection) :=
  if m.len ≤ x then none
  else if m.buf x = 0 then some (0, c)
  else match _hn : cstring m x with
    | none => none
    | some name =>
      let x' := x + name.length + 1
      if m.len ≤ x' then none
      else if m.buf x' = 0 then some (-1, { c with params := c.params ++ [⟨name, []⟩] })
      else match cstring m x' with
        | none => none
        | some value => extractLoop ctx m (setParam ctx c name value) (x' + value.length + 1)
termination_by m.len - x
decreasing_by
  have := cstring_length _hn
  omega

/-- `extract_params`. -/
def extractParams (ctx : Context) (c : Connection) (m : Mbuf) : Option (ℤ × Connection) :=
  match pgrMbufData m 4 0 with
  | none => some (0, c)
  | some x => extractLoop ctx m c x

/-! ### The password -/

/-- `hashed`: what `check_auth` compares with. `stack` is what is in the memory of `md5`
before it is initialised. -/
def authToken (stack : ℕ → Octet) (pwhash : CString) (salt : Vector Octet 4) : CString :=
  pgrMd5Hex (pgrMd5Update (pgrMd5Update (pgrMd5Init stack) pwhash) salt.toList)

/-- `check_auth`. -/
def checkAuth (stack : ℕ → Octet) (c : Connection) (m : Mbuf) : Option ℤ :=
  match c.pwhash with
  | none => some 1
  | some pwhash =>
    match pgrMbufData m 3 32 with
    | none => none
    | some x => some (memcmp (slice m.buf x (x + 32)) (authToken stack pwhash c.salt))

end PgRouter.Login
