import PgRouter.Login.Accept
import PgRouter.Wire.ErrorResponse

/-!
# Who is let in

`pgr_conn_accept` returns `0` only to a client that has sent the digest of a password hash and
the salt. What the client has sent before does not matter: several start-ups with different
users, or none, values that are missing and messages cut short. The user name and the hash go
together with the parameters (`Consistent`), whatever the messages are, and so the hash that
the digest is made of is that of the user the backends are told about (`authenticated`).
-/

namespace PgRouter.Login

open Foundation Wire

/-! ### The parameters -/

/-- The value of the last parameter with that name. -/
def lastValue (name : CString) (params : List Param) : Option CString :=
  (params.filter fun p => p.name = name).getLast?.map Param.value

theorem lastValue_append (name : CString) (params : List Param) (p : Param) :
    lastValue name (params ++ [p]) = if p.name = name then some p.value else lastValue name params := by
  unfold lastValue
  rw [List.filter_append, List.filter_singleton]
  split_ifs with h
  · simp [h]
  · simp [h]

/-- The user name is that of the parameters, and the hash is that of the user. -/
structure Consistent (ctx : Context) (c : Connection) : Prop where
  /-- The user name is the last one given. -/
  username : c.username = lastValue USER c.params
  /-- The hash is what is found for it. -/
  pwhash : c.pwhash = c.username.bind (pgrAuthFind ctx)
  /-- There are no empty values. -/
  value_ne : ∀ p ∈ c.params, p.value ≠ []

theorem pgrConnInit_consistent (ctx : Context) (salt : Vector Octet 4) : Consistent ctx (pgrConnInit salt) :=
  ⟨rfl, rfl, fun _ h => absurd h List.not_mem_nil⟩

theorem Consistent.setParam {ctx : Context} {c : Connection} (h : Consistent ctx c) (name : CString) {value : CString}
    (hv : value ≠ []) : Consistent ctx (setParam ctx c name value) := by
  have hmem : ∀ p ∈ c.params ++ [⟨name, value⟩], p.value ≠ [] := by
    intro p hp
    rcases List.mem_append.mp hp with hp | hp
    · exact h.value_ne p hp
    · rw [List.mem_singleton.mp hp]
      exact hv
  have hlast := lastValue_append USER c.params ⟨name, value⟩
  unfold Login.setParam
  simp only
  split_ifs with huser hdatabase
  · rw [if_pos huser] at hlast
    exact ⟨hlast.symm, rfl, hmem⟩
  · rw [if_neg huser] at hlast
    exact ⟨h.username.trans hlast.symm, h.pwhash, hmem⟩
  · rw [if_neg huser] at hlast
    exact ⟨h.username.trans hlast.symm, h.pwhash, hmem⟩

@[simp] theorem setParam_salt (ctx : Context) (c : Connection) (name value : CString) :
    (setParam ctx c name value).salt = c.salt := by
  unfold setParam
  split_ifs <;> rfl

/-- A string that does not begin with NUL is not empty. -/
theorem cstring_ne_nil {m : Mbuf} {x : ℕ} {s : CString} (h : cstring m x = some s) (h0 : m.buf x ≠ 0) : s ≠ [] := by
  have hlt := cstring_length h
  unfold cstring at h
  split_ifs at h
  rw [slice_cons m.buf (by omega), List.takeWhile_cons_of_pos (by simpa using h0)] at h
  cases h
  exact List.cons_ne_nil _ _

/-- **Extracting parameters keeps them consistent**, unless it fails. -/
theorem extractLoop_consistent {ctx : Context} {m : Mbuf} {c c' : Connection} {x : ℕ} {rc : ℤ}
    (h : extractLoop ctx m c x = some (rc, c')) (hc : Consistent ctx c) :
    c'.salt = c.salt ∧ (rc = 0 → Consistent ctx c') := by
  fun_induction extractLoop ctx m c x with
  | case1 => cases h
  | case2 c x _ _ =>
    cases h
    exact ⟨rfl, fun _ => hc⟩
  | case3 => cases h
  | case4 => cases h
  | case5 =>
    cases h
    exact ⟨rfl, fun h0 => absurd h0 (by decide)⟩
  | case6 => cases h
  | case7 c x _ _ name _ x' _ hne value hvalue ih =>
    obtain ⟨hsalt, hcons⟩ := ih h (hc.setParam name (cstring_ne_nil hvalue hne))
    exact ⟨by rw [hsalt, setParam_salt], hcons⟩

theorem extractParams_consistent {ctx : Context} {m : Mbuf} {c c' : Connection} {rc : ℤ}
    (h : extractParams ctx c m = some (rc, c')) (hc : Consistent ctx c) :
    c'.salt = c.salt ∧ (rc = 0 → Consistent ctx c') := by
  unfold extractParams at h
  split at h
  · cases h
    exact ⟨rfl, fun _ => hc⟩
  · exact extractLoop_consistent h hc

/-! ### The password -/

/-- The token is the digest of the hash and the salt. -/
theorem authToken_eq (stack : ℕ → Octet) (pwhash : CString) (salt : Vector Octet 4) :
    authToken stack pwhash salt = MessageDigest.hex (MessageDigest.digest (pwhash ++ salt.toList)) := by
  have h := ((pgrMd5Init_holds stack).update pwhash).update salt.toList
  rw [List.nil_append] at h
  rw [authToken, h.hex]

/-- The octets at data offset 3 of the message in the buffer. -/
def HasToken (m : Mbuf) (token : CString) : Prop :=
  ∃ x, pgrMbufData m 3 32 = some x ∧ slice m.buf x (x + 32) = token

/-- `check_auth` returns `0` for the token only. -/
theorem checkAuth_eq_zero {stack : ℕ → Octet} {c : Connection} {m : Mbuf} (h : checkAuth stack c m = some 0) :
    ∃ hash, c.pwhash = some hash ∧
      HasToken m (MessageDigest.hex (MessageDigest.digest (hash ++ c.salt.toList))) := by
  unfold checkAuth at h
  split at h
  · cases h
  · rename_i hash hhash
    split at h
    · cases h
    · rename_i x hx
      have hlen : (slice m.buf x (x + 32)).length = (authToken stack hash c.salt).length := by
        rw [length_slice, authToken_eq, MessageDigest.length_hex, MessageDigest.length_digest, Nat.add_sub_cancel_left]
      rw [Option.some_inj, memcmp_eq_zero_iff hlen, authToken_eq] at h
      exact ⟨hash, hhash, x, hx, h⟩

/-! ### The login -/

namespace Accept

/-- What is so as long as the login goes on, and when it has returned `0`. -/
structure Sound (ctx : Context) (salt : Vector Octet 4) (l : Accept) : Prop where
  /-- The salt is not changed. -/
  salt : l.conn.salt = salt
  /-- The parameters are consistent. -/
  consistent : l.stage = .receiving ∨ l.stage = .returned 0 → Consistent ctx l.conn

/-- The round lets the client in. -/
structure LetsIn (stack : ℕ → Octet) (l l' : Accept) : Prop where
  /-- The message is a PasswordMessage. -/
  type : pgrMbufMsgtype l.mbuf = chr 'p'
  /-- The password is right. -/
  auth : checkAuth stack l.conn l.mbuf = some 0
  /-- The connection stays as it is. -/
  conn : l'.conn = l.conn

theorem Sound.same {ctx : Context} {salt : Vector Octet 4} {l l' : Accept} (hl : Sound ctx salt l)
    (hc : Consistent ctx l.conn) (hconn : l'.conn = l.conn) : Sound ctx salt l' :=
  ⟨hconn ▸ hl.salt, fun _ => hconn ▸ hc⟩

/-- Parameters have been extracted. -/
theorem Sound.changed {ctx : Context} {salt : Vector Octet 4} {l l' : Accept} {c : Connection} (hl : Sound ctx salt l)
    (hconn : l'.conn = c) (hsalt : c.salt = l.conn.salt) (hc : Consistent ctx c) : Sound ctx salt l' :=
  ⟨by rw [hconn, hsalt, hl.salt], fun _ => by rw [hconn]; exact hc⟩

/-- A round keeps the login sound, and returns `0` only if it lets the client in. -/
theorem Round.sound {ctx : Context} {stack : ℕ → Octet} {salt : Vector Octet 4} {l l' : Accept}
    (h : Round ctx stack l l') (hl : Sound ctx salt l) (hs : l.stage = .receiving) :
    Sound ctx salt l' ∧ (l'.stage = .returned 0 → LetsIn stack l l') := by
  have hc := hl.consistent (.inl hs)
  -- a login that goes on has not returned, and one that returns something else has not returned `0`
  have hgo : ∀ {l' : Accept}, l'.stage = .receiving → l'.stage = .returned 0 → LetsIn stack l l' := by
    intro l' h h'
    rw [h] at h'
    cases h'
  have hrc : ∀ {l' : Accept} {rc : ℤ}, rc ≠ 0 → (l'.ret rc).stage = .returned 0 → LetsIn stack l (l'.ret rc) :=
    fun h h' => absurd (Stage.returned.inj h') h
  cases h with
  | ssl => exact ⟨hl.same hc rfl, hgo hs⟩
  | sslFailed => exact ⟨hl.same hc rfl, hrc (by decide)⟩
  | cancel => exact ⟨hl.same hc rfl, hgo hs⟩
  | startupFault => exact ⟨hl.same hc rfl, fun h => by cases h⟩
  | startupRefused type params refused =>
    have hsalt := (extractParams_consistent params hc).1
    refine ⟨⟨hsalt.trans hl.salt, fun h => ?_⟩, hrc refused⟩
    rcases h with h | h
    · cases h
    · exact absurd (Stage.returned.inj h) refused
  | startupFailed type params reply =>
    obtain ⟨hsalt, hcons⟩ := extractParams_consistent params hc
    exact ⟨hl.changed (by rw [ret_conn, challenge_conn, parsed_conn]) hsalt (hcons rfl), hrc reply⟩
  | startup type params reply =>
    obtain ⟨hsalt, hcons⟩ := extractParams_consistent params hc
    refine ⟨hl.changed (by rw [challenge_conn, parsed_conn]) hsalt (hcons rfl), hgo ?_⟩
    rw [challenge_stage]
    exact hs
  | passwordFault => exact ⟨hl.same hc rfl, fun h => by cases h⟩
  | refused => exact ⟨hl.same hc (by rw [ret_conn, refuse_conn, discard_conn]), hrc (by decide)⟩
  | welcomeFailed type auth reply =>
    exact ⟨hl.same hc (by rw [ret_conn, welcome_conn, discard_conn]), hrc reply⟩
  | readyFailed type auth reply ready =>
    exact ⟨hl.same hc (by rw [ret_conn, ready_conn, welcome_conn, discard_conn]), hrc ready⟩
  | accepted type auth =>
    have hconn : (l.discard.welcome.2.ready.2.ret 0).conn = l.conn := by
      rw [ret_conn, ready_conn, welcome_conn, discard_conn]
    exact ⟨hl.same hc hconn, fun _ => ⟨type, auth, hconn⟩⟩
  | unknown => exact ⟨hl.same hc rfl, hrc (by decide)⟩

/-- A step keeps the login sound, and a login that returns `0` in it lets the client in. -/
theorem step_sound {ctx : Context} (stack : ℕ → Octet) {salt : Vector Octet 4} {l : Accept} (hl : Sound ctx salt l) :
    Sound ctx salt (l.step ctx stack) ∧
      ((l.step ctx stack).stage = .returned 0 → l.stage = .returned 0 ∧ l.step ctx stack = l ∨
        l.stage = .receiving ∧ LetsIn stack l.recv.2 (l.step ctx stack)) := by
  rcases step_cases ctx stack l with ⟨hs, hstep⟩ | ⟨hs, -, hstep⟩ | ⟨hs, -, hround⟩
  · rw [hstep]
    exact ⟨hl, fun h => .inl ⟨h, rfl⟩⟩
  · rw [hstep]
    exact ⟨hl.same (hl.consistent (.inl hs)) rfl, fun h => by cases h⟩
  · have hrecv : Sound ctx salt l.recv.2 := hl.same (hl.consistent (.inl hs)) rfl
    obtain ⟨hsound, hin⟩ := hround.sound hrecv hs
    exact ⟨hsound, fun h => .inr ⟨hs, hin h⟩⟩

/-- A login, after `n` steps. -/
def run (ctx : Context) (stack : ℕ → Octet) (salt : Vector Octet 4) (fd : Fd) (k : Kernel) (n : ℕ) : Accept :=
  (step ctx stack)^[n] (start (pgrConnFrontend (pgrConnInit salt) fd) k)

theorem run_succ (ctx : Context) (stack : ℕ → Octet) (salt : Vector Octet 4) (fd : Fd) (k : Kernel) (n : ℕ) :
    run ctx stack salt fd k (n + 1) = (run ctx stack salt fd k n).step ctx stack :=
  Function.iterate_succ_apply' ..

/-- A login is sound after any number of steps. -/
theorem run_sound (ctx : Context) (stack : ℕ → Octet) (salt : Vector Octet 4) (fd : Fd) (k : Kernel) (n : ℕ) :
    Sound ctx salt (run ctx stack salt fd k n) := by
  induction n with
  | zero =>
    have hc := pgrConnInit_consistent ctx salt
    exact ⟨rfl, fun _ => ⟨hc.username, hc.pwhash, hc.value_ne⟩⟩
  | succ n ih =>
    rw [run_succ]
    exact (step_sound stack ih).1

/-- A login that has returned `0` did so in a round that let the client in. -/
theorem run_returned {ctx : Context} {stack : ℕ → Octet} {salt : Vector Octet 4} {fd : Fd} {k : Kernel} {n : ℕ}
    (h : (run ctx stack salt fd k n).stage = .returned 0) :
    ∃ i < n, (run ctx stack salt fd k i).stage = .receiving ∧
      run ctx stack salt fd k (i + 1) = run ctx stack salt fd k n ∧
      LetsIn stack (run ctx stack salt fd k i).recv.2 (run ctx stack salt fd k n) := by
  induction n with
  | zero => cases h
  | succ n ih =>
    have hsucc := run_succ ctx stack salt fd k n
    rw [hsucc] at h
    rcases (step_sound stack (run_sound ctx stack salt fd k n)).2 h with ⟨hret, hsame⟩ | ⟨hs, hin⟩
    · obtain ⟨i, hi, hs, hrun, hin⟩ := ih hret
      rw [hsucc, hsame]
      exact ⟨i, by omega, hs, hrun, hin⟩
    · rw [← hsucc] at hin
      exact ⟨n, by omega, hs, rfl, hin⟩

/-- **A login that returns `0` has authenticated the user it is for.** -/
theorem authenticated (ctx : Context) (stack : ℕ → Octet) (salt : Vector Octet 4) (fd : Fd) (k : Kernel) (n : ℕ)
    (h : (run ctx stack salt fd k n).stage = .returned 0) :
    ∃ user hash, (run ctx stack salt fd k n).conn.username = some user ∧
      lastValue USER (run ctx stack salt fd k n).conn.params = some user ∧
      (∀ p ∈ (run ctx stack salt fd k n).conn.params, p.value ≠ []) ∧
      (run ctx stack salt fd k n).conn.pwhash = some hash ∧ pgrAuthFind ctx user = some hash ∧
      (run ctx stack salt fd k n).conn.salt = salt ∧
      ∃ i < n, (run ctx stack salt fd k i).stage = .receiving ∧
        (run ctx stack salt fd k (i + 1)).stage = .returned 0 ∧
        pgrMbufMsgtype (run ctx stack salt fd k i).recv.2.mbuf = chr 'p' ∧
        HasToken (run ctx stack salt fd k i).recv.2.mbuf
          (MessageDigest.hex (MessageDigest.digest (hash ++ salt.toList))) := by
  have hsound := run_sound ctx stack salt fd k n
  have hc := hsound.consistent (.inr h)
  obtain ⟨i, hi, hs, hrun, hin⟩ := run_returned h
  obtain ⟨hash, hhash, htoken⟩ := checkAuth_eq_zero hin.auth
  rw [← hin.conn] at hhash htoken
  rw [hsound.salt] at htoken
  have hpwhash := hc.pwhash
  rw [hhash] at hpwhash
  obtain ⟨user, huser, hfind⟩ := Option.bind_eq_some_iff.mp hpwhash.symm
  exact ⟨user, hash, huser, hc.username.symm.trans huser, hc.value_ne, hhash, hfind, hsound.salt, i, hi, hs,
    hrun ▸ h, hin.type, htoken⟩

/-- An `authdb` with one user, `bob`. -/
def someContext : Context :=
  { Context.zero with healthTimeout := 30, authdb := [([0x62, 0x6f, 0x62], [0x68, 0x61, 0x73, 0x68])] }

/-- A salt. -/
def someSalt : Vector Octet 4 := #v[0x73, 0x61, 0x6c, 0x74]

/-- A StartupMessage for the user `bob`. -/
def bobStartup : List Octet :=
  [0, 0, 0, 18, 0, 3, 0, 0, 0x75, 0x73, 0x65, 0x72, 0, 0x62, 0x6f, 0x62, 0, 0]

/-- A PasswordMessage with the token. -/
def bobPassword : List Octet :=
  [0x70, 0, 0, 0, 40, 0x6d, 0x64, 0x35] ++
    MessageDigest.hex (MessageDigest.digest ([0x68, 0x61, 0x73, 0x68] ++ someSalt.toList)) ++ [0]

/-- A client that sends the PasswordMessage after the StartupMessage has been answered. -/
def bobKernel : Kernel :=
  { Kernel.eager fun _ => bobStartup ++ bobPassword with
    reads := Stream'.cons (.upto bobStartup.length) (Stream'.const (.upto (2 ^ 16))) }

/-- `bob` is let in. -/
theorem authenticated_bob :
    ∃ user hash, (run someContext (fun _ => 0) someSalt 3 bobKernel 2).conn.username = some user ∧
      pgrAuthFind someContext user = some hash ∧
      HasToken (run someContext (fun _ => 0) someSalt 3 bobKernel 1).recv.2.mbuf
        (MessageDigest.hex (MessageDigest.digest (hash ++ someSalt.toList))) := by
  obtain ⟨user, hash, huser, -, -, -, hfind, -, i, hi, -, hret, -, htoken⟩ :=
    authenticated someContext (fun _ => 0) someSalt 3 bobKernel 2 (by decide +kernel)
  have h1 : (run someContext (fun _ => 0) someSalt 3 bobKernel 1).stage ≠ .returned 0 := by decide +kernel
  have hi' : i = 1 := by
    rcases Nat.lt_succ_iff_lt_or_eq.mp hi with h | h
    · obtain rfl : i = 0 := by omega
      exact absurd hret h1
    · exact h
  exact ⟨user, hash, huser, hfind, hi' ▸ htoken⟩

end Accept

end PgRouter.Login
