import PgRouter.Foundation.Run
import PgRouter.Login.Connection

/-!
# Accepting a client

`pgr_conn_accept` of `conn.c`. A client that has connected asks for a start-up, is asked for
the digest of its password hash and a salt, and is let in if it sends that digest. The loop
receives one message after the other, in whatever order the client sends them.

## The model

The login is a machine whose steps are the rounds of the loop. A round ends the loop when it
returns, and also when it looks at memory that is not its own: what follows is then not
determined by the program. All replies are appended to the buffer that the messages of the
client are read into, and `pgr_mbuf_relay` sends what is first in it.
-/

namespace PgRouter.Login

open Foundation Wire

/-- Where a login is. -/
inductive Stage where
  /-- At the head of the loop. -/
  | receiving
  /-- `pgr_conn_accept` has returned. -/
  | returned (rc : ℤ)
  /-- It has looked at memory that is not its own. -/
  | fault
  deriving DecidableEq

/-- The state of a login. -/
structure Accept where
  /-- Where it is. -/
  stage : Stage
  /-- The connection. -/
  conn : Connection
  /-- Messages of the client, and replies. -/
  mbuf : Mbuf
  /-- The kernel. -/
  kernel : Kernel

/-- `pgr_conn_frontend`. -/
def pgrConnFrontend (c : Connection) (fd : Fd) : Connection := { c with fd := fd }

/-- Before the loop. -/
def Accept.start (c : Connection) (k : Kernel) : Accept where
  stage := .receiving
  conn := c
  mbuf := pgrMbufSetfd (pgrMbufNew 512) c.fd c.fd
  kernel := k

/-- `"N"`: no SSL. -/
def NO_SSL : List Octet := [0x4e]

namespace Accept

/-- `return rc`. -/
def ret (l : Accept) (rc : ℤ) : Accept := { l with stage := .returned rc }

/-- What a function on the buffer leaves. -/
def withMbuf (l : Accept) (r : Outcome) : ℤ × Accept := (r.1, { l with mbuf := r.2.1, kernel := r.2.2 })

/-- `pgr_mbuf_recv(m)`. -/
def recv (l : Accept) : ℤ × Accept := l.withMbuf (pgrMbufRecv l.mbuf l.kernel)

/-- `pgr_mbuf_discard(m)`, its result not being looked at. -/
def discard (l : Accept) : Accept := (l.withMbuf (pgrMbufDiscard l.mbuf l.kernel)).2

/-- `pgr_mbuf_relay(m)`. -/
def relay (l : Accept) : ℤ × Accept := l.withMbuf (pgrMbufRelay l.mbuf l.kernel)

/-- A message has been appended with result `r.1`, and is relayed. -/
def reply (l : Accept) (r : ℤ × Mbuf) : ℤ × Accept :=
  let l := { l with mbuf := r.2 }
  if r.1 ≠ 0 then (r.1, l) else l.relay

/-! ### The messages of the client -/

/-- The case `MSG_SSLREQ`. -/
def sslRequest (l : Accept) : Accept :=
  let l := l.discard
  let (n, k) := l.kernel.write l.conn.fd NO_SSL
  let l := { l with kernel := k }
  if n.map List.length = some 1 then l else l.ret (-1)

/-- The case `MSG_CANCEL`. -/
def cancelRequest (l : Accept) : Accept := l.discard

/-- The case `MSG_STARTUP`. -/
def startupMessage (ctx : Context) (l : Accept) : Accept :=
  match extractParams ctx l.conn l.mbuf with
  | none => { l with stage := .fault }
  | some (rc, c) =>
    let l := { l with conn := c }
    if rc ≠ 0 then l.ret rc
    else
      let l := l.discard
      let (rc, l) := l.reply (authMd5Message l.mbuf l.conn)
      if rc ≠ 0 then l.ret rc else l

/-- The case `'p'`. -/
def passwordMessage (stack : ℕ → Octet) (l : Accept) : Accept :=
  match checkAuth stack l.conn l.mbuf with
  | none => { l with stage := .fault }
  | some rc =>
    let l := l.discard
    if rc ≠ 0 then
      let l := { l with mbuf := errorResponse l.mbuf ERROR INVALID_PASSWORD (failureText l.conn.username) }
      l.relay.2.ret 1
    else
      let (rc, l) := l.reply (authOkMessage l.mbuf)
      if rc ≠ 0 then l.ret rc
      else
        let (rc, l) := l.reply (readyForQuery l.mbuf)
        if rc ≠ 0 then l.ret rc else l.ret 0

/-! ### The loop -/

/-- The `switch`, a message having been received. -/
def dispatch (ctx : Context) (stack : ℕ → Octet) (l : Accept) : Accept :=
  let type := pgrMbufMsgtype l.mbuf
  if type = MSG_SSLREQ then l.sslRequest
  else if type = MSG_CANCEL then l.cancelRequest
  else if type = MSG_STARTUP then l.startupMessage ctx
  else if type = chr 'p' then l.passwordMessage stack
  else l.ret (-1)

/-- A round of the loop. -/
def round (ctx : Context) (stack : ℕ → Octet) (l : Accept) : Accept :=
  let (rc, l) := l.recv
  if rc < 0 then l.ret (-1) else l.dispatch ctx stack

/-- A step of the login. `stack` is what the stack contains when `check_auth` is called,
which is once. -/
def step (ctx : Context) (stack : ℕ → Octet) (l : Accept) : Accept :=
  match l.stage with
  | .receiving => l.round ctx stack
  | .returned _ => l
  | .fault => l

end Accept

/-! ### The rounds -/

namespace Accept

/-- The buffer after a StartupMessage with the parameters `c`. -/
def parsed (l : Accept) (c : Connection) : Accept := discard { l with conn := c }

/-- The password is asked for. -/
def challenge (l : Accept) : ℤ × Accept := l.reply (authMd5Message l.mbuf l.conn)

/-- The client is told that it is let in. -/
def welcome (l : Accept) : ℤ × Accept := l.reply (authOkMessage l.mbuf)

/-- The client is told that it may send a query. -/
def ready (l : Accept) : ℤ × Accept := l.reply (readyForQuery l.mbuf)

/-- The client is told that it is not let in. -/
def refuse (l : Accept) : Accept :=
  (relay { l with mbuf := errorResponse l.mbuf ERROR INVALID_PASSWORD (failureText l.conn.username) }).2

/-- The client is told that there is no SSL. -/
def noSsl (l : Accept) : Accept := { l with kernel := (l.kernel.write l.conn.fd NO_SSL).2 }

@[simp] theorem ret_conn (l : Accept) (rc : ℤ) : (l.ret rc).conn = l.conn := rfl

@[simp] theorem ret_stage (l : Accept) (rc : ℤ) : (l.ret rc).stage = .returned rc := rfl

@[simp] theorem recv_conn (l : Accept) : l.recv.2.conn = l.conn := rfl

@[simp] theorem recv_stage (l : Accept) : l.recv.2.stage = l.stage := rfl

@[simp] theorem discard_conn (l : Accept) : l.discard.conn = l.conn := rfl

@[simp] theorem discard_stage (l : Accept) : l.discard.stage = l.stage := rfl

@[simp] theorem reply_conn (l : Accept) (r : ℤ × Mbuf) : (l.reply r).2.conn = l.conn := by
  unfold reply
  simp only
  split_ifs <;> rfl

@[simp] theorem reply_stage (l : Accept) (r : ℤ × Mbuf) : (l.reply r).2.stage = l.stage := by
  unfold reply
  simp only
  split_ifs <;> rfl

@[simp] theorem refuse_conn (l : Accept) : l.refuse.conn = l.conn := by simp only [refuse, relay, withMbuf]

@[simp] theorem parsed_conn (l : Accept) (c : Connection) : (l.parsed c).conn = c := rfl

@[simp] theorem challenge_conn (l : Accept) : l.challenge.2.conn = l.conn := reply_conn ..

@[simp] theorem challenge_stage (l : Accept) : l.challenge.2.stage = l.stage := reply_stage ..

@[simp] theorem welcome_conn (l : Accept) : l.welcome.2.conn = l.conn := reply_conn ..

@[simp] theorem ready_conn (l : Accept) : l.ready.2.conn = l.conn := reply_conn ..

/-- A way through a round, `l` being the state after `pgr_mbuf_recv`, and what it leaves. -/
inductive Round (ctx : Context) (stack : ℕ → Octet) (l : Accept) : Accept → Prop
  /-- An SSLRequest is answered. -/
  | ssl (type : pgrMbufMsgtype l.mbuf = MSG_SSLREQ)
      (write : (l.discard.kernel.write l.conn.fd NO_SSL).1.map List.length = some 1) : Round ctx stack l l.discard.noSsl
  /-- An SSLRequest cannot be answered. -/
  | sslFailed (type : pgrMbufMsgtype l.mbuf = MSG_SSLREQ)
      (write : (l.discard.kernel.write l.conn.fd NO_SSL).1.map List.length ≠ some 1) :
      Round ctx stack l (l.discard.noSsl.ret (-1))
  /-- A CancelRequest is passed over. -/
  | cancel (type : pgrMbufMsgtype l.mbuf = MSG_CANCEL) : Round ctx stack l l.discard
  /-- A StartupMessage runs out of the buffer. -/
  | startupFault (type : pgrMbufMsgtype l.mbuf = MSG_STARTUP) (params : extractParams ctx l.conn l.mbuf = none) :
      Round ctx stack l { l with stage := .fault }
  /-- A StartupMessage has an empty value. -/
  | startupRefused {rc : ℤ} {c : Connection} (type : pgrMbufMsgtype l.mbuf = MSG_STARTUP)
      (params : extractParams ctx l.conn l.mbuf = some (rc, c)) (refused : rc ≠ 0) :
      Round ctx stack l (ret { l with conn := c } rc)
  /-- The password cannot be asked for. -/
  | startupFailed {c : Connection} (type : pgrMbufMsgtype l.mbuf = MSG_STARTUP)
      (params : extractParams ctx l.conn l.mbuf = some (0, c)) (reply : (l.parsed c).challenge.1 ≠ 0) :
      Round ctx stack l ((l.parsed c).challenge.2.ret (l.parsed c).challenge.1)
  /-- The password is asked for. -/
  | startup {c : Connection} (type : pgrMbufMsgtype l.mbuf = MSG_STARTUP)
      (params : extractParams ctx l.conn l.mbuf = some (0, c)) (reply : (l.parsed c).challenge.1 = 0) :
      Round ctx stack l (l.parsed c).challenge.2
  /-- There are not enough octets for a password. -/
  | passwordFault (type : pgrMbufMsgtype l.mbuf = chr 'p') (auth : checkAuth stack l.conn l.mbuf = none) :
      Round ctx stack l { l with stage := .fault }
  /-- The password is wrong. -/
  | refused {rc : ℤ} (type : pgrMbufMsgtype l.mbuf = chr 'p') (auth : checkAuth stack l.conn l.mbuf = some rc)
      (wrong : rc ≠ 0) : Round ctx stack l (l.discard.refuse.ret 1)
  /-- The password is right, and the client cannot be told. -/
  | welcomeFailed (type : pgrMbufMsgtype l.mbuf = chr 'p') (auth : checkAuth stack l.conn l.mbuf = some 0)
      (reply : l.discard.welcome.1 ≠ 0) : Round ctx stack l (l.discard.welcome.2.ret l.discard.welcome.1)
  /-- The password is right, and the client cannot be told that it may send a query. -/
  | readyFailed (type : pgrMbufMsgtype l.mbuf = chr 'p') (auth : checkAuth stack l.conn l.mbuf = some 0)
      (reply : l.discard.welcome.1 = 0) (ready : l.discard.welcome.2.ready.1 ≠ 0) :
      Round ctx stack l (l.discard.welcome.2.ready.2.ret l.discard.welcome.2.ready.1)
  /-- The client is let in. -/
  | accepted (type : pgrMbufMsgtype l.mbuf = chr 'p') (auth : checkAuth stack l.conn l.mbuf = some 0)
      (reply : l.discard.welcome.1 = 0) (ready : l.discard.welcome.2.ready.1 = 0) :
      Round ctx stack l (l.discard.welcome.2.ready.2.ret 0)
  /-- There is no such message. -/
  | unknown (ssl : pgrMbufMsgtype l.mbuf ≠ MSG_SSLREQ) (cancel : pgrMbufMsgtype l.mbuf ≠ MSG_CANCEL)
      (startup : pgrMbufMsgtype l.mbuf ≠ MSG_STARTUP) (password : pgrMbufMsgtype l.mbuf ≠ chr 'p') :
      Round ctx stack l (l.ret (-1))

theorem sslRequest_round (ctx : Context) (stack : ℕ → Octet) (l : Accept) (type : pgrMbufMsgtype l.mbuf = MSG_SSLREQ) :
    Round ctx stack l l.sslRequest := by
  unfold sslRequest
  simp only
  split_ifs with hwrite
  · exact .ssl type hwrite
  · exact .sslFailed type hwrite

theorem startupMessage_round (ctx : Context) (stack : ℕ → Octet) (l : Accept)
    (type : pgrMbufMsgtype l.mbuf = MSG_STARTUP) : Round ctx stack l (l.startupMessage ctx) := by
  unfold startupMessage
  split
  · exact .startupFault type ‹_›
  · rename_i rc c hparams
    simp only
    split_ifs with hrc hreply
    · exact .startupRefused type hparams hrc
    · exact .startupFailed type (not_not.mp hrc ▸ hparams) hreply
    · exact .startup type (not_not.mp hrc ▸ hparams) (not_not.mp hreply)

theorem passwordMessage_round (ctx : Context) (stack : ℕ → Octet) (l : Accept)
    (type : pgrMbufMsgtype l.mbuf = chr 'p') : Round ctx stack l (l.passwordMessage stack) := by
  unfold passwordMessage
  split
  · exact .passwordFault type ‹_›
  · rename_i rc hauth
    simp only
    split_ifs with hrc hreply hready
    · exact .refused type hauth hrc
    · exact .welcomeFailed type (not_not.mp hrc ▸ hauth) hreply
    · exact .readyFailed type (not_not.mp hrc ▸ hauth) (not_not.mp hreply) hready
    · exact .accepted type (not_not.mp hrc ▸ hauth) (not_not.mp hreply) (not_not.mp hready)

theorem dispatch_round (ctx : Context) (stack : ℕ → Octet) (l : Accept) : Round ctx stack l (l.dispatch ctx stack) := by
  unfold dispatch
  simp only
  split_ifs with hssl hcancel hstartup hpassword
  · exact sslRequest_round ctx stack l hssl
  · exact .cancel hcancel
  · exact startupMessage_round ctx stack l hstartup
  · exact passwordMessage_round ctx stack l hpassword
  · exact .unknown hssl hcancel hstartup hpassword

/-- **What a step does**: nothing when the login is over, and else it receives, and goes through a
round if that does not fail. -/
theorem step_cases (ctx : Context) (stack : ℕ → Octet) (l : Accept) :
    (l.stage ≠ .receiving ∧ l.step ctx stack = l) ∨
      (l.stage = .receiving ∧ l.recv.1 < 0 ∧ l.step ctx stack = l.recv.2.ret (-1)) ∨
      (l.stage = .receiving ∧ 0 ≤ l.recv.1 ∧ Round ctx stack l.recv.2 (l.step ctx stack)) := by
  unfold step
  rcases hs : l.stage with _ | rc | _
  · simp only [ne_eq, not_true_eq_false, false_and, true_and, false_or]
    unfold round
    simp only
    split_ifs with hrecv
    · exact .inl ⟨hrecv, rfl⟩
    · exact .inr ⟨not_lt.mp hrecv, dispatch_round ctx stack l.recv.2⟩
  · exact .inl ⟨Stage.noConfusion, rfl⟩
  · exact .inl ⟨Stage.noConfusion, rfl⟩

end Accept

end PgRouter.Login
