import PgRouter.Context
import PgRouter.Foundation.Run
import PgRouter.Wire.Stream

/-!
# A client session

`handle_client` of `worker.c`, from the moment the client and both backends are connected
and `fe` and `be` have been set up. It sends each request of the client to one backend,
the reader as long as no transaction is open, and relays the reply. When the reader answers
that it cannot execute the request, error 25006, the rest of its reply is drained, the
request is resent to the writer, and the writer's reply is relayed instead.

## The model

The session is a machine whose steps are the rounds of the loops: `pc` says at the head of
which loop it is, and `step` runs to the head of the next. A step is a function of the
state, for what the kernel decides is in the kernel. The loop of `pgr_mbuf_drain` is in the
machine, since it need not end. A session that has shut down stays where it is.

The three descriptors are open ones and three different ones, which `Descriptors` says.
Timers, debugging output and the unused `len` are left out.
-/

namespace PgRouter.Worker

open Foundation Wire

/-- The descriptors of a session. -/
structure Descriptors where
  /-- The client. -/
  frontend : Fd
  /-- The backend that is read from. -/
  reader : Fd
  /-- The backend that is written to. -/
  writer : Fd
  /-- An open descriptor is not negative. -/
  frontend_nonneg : 0 ≤ frontend
  /-- An open descriptor is not negative. -/
  reader_nonneg : 0 ≤ reader
  /-- An open descriptor is not negative. -/
  writer_nonneg : 0 ≤ writer
  /-- The client is not the reader. -/
  frontend_ne_reader : frontend ≠ reader
  /-- The client is not the writer. -/
  frontend_ne_writer : frontend ≠ writer
  /-- The reader is not the writer. -/
  reader_ne_writer : reader ≠ writer

/-- An open descriptor is not `MBUF_SAME_FD`. -/
theorem ne_same_fd {fd : Fd} (h : 0 ≤ fd) : fd ≠ MBUF_SAME_FD := by
  rintro rfl
  exact absurd h (by decide)

/-- Three descriptors. -/
def someDescriptors : Descriptors := ⟨3, 4, 5, by decide, by decide, by decide, by decide, by decide, by decide⟩

/-- A kernel that has all that the client and the backends send ready. -/
def someKernel (client reader writer : List Octet) : Kernel :=
  .eager fun fd => if fd = 3 then client else if fd = 4 then reader else if fd = 5 then writer else []

/-- A Query message with the text `text`. -/
def queryMessage (text : List Octet) : List Octet := [0x51] ++ be32 (text.length + 5) ++ text ++ [0]

/-- A ReadyForQuery message. -/
def READY : List Octet := [0x5a, 0, 0, 0, 5, 0x49]

/-- An ErrorResponse with the code 25006. -/
def REFUSAL : List Octet := [0x45, 0, 0, 0, 12, 0x43, 0x32, 0x35, 0x30, 0x30, 0x36, 0, 0]

theorem legible_ready : Legible Message.WellFormed READY := by
  rw [← List.append_nil READY]
  exact legible_message 0x5a [0x49] (by decide) (by decide) (by decide) (fun h => absurd h (by decide)) (by decide) .nil

theorem legible_refusal {rest : List Octet} (h : Legible Message.WellFormed rest) :
    Legible Message.WellFormed (REFUSAL ++ rest) := by
  let field : ErrorField := ⟨0x43, [0x32, 0x35, 0x30, 0x30, 0x36], by decide, by decide +kernel⟩
  exact legible_message 0x45 (errorPayload [field]) (by decide) (by decide) (by decide) (fun _ => ⟨[field], rfl⟩)
    (by decide) h

/-- Where `handle_client` is. -/
inductive Pc where
  /-- At the head of the outer loop: the next request begins. -/
  | loopHead
  /-- At the head of the loop that sends the messages of a request. -/
  | feRecv
  /-- At the label `again`: the next message of the reply is received. -/
  | beRecv
  /-- In the loop of `pgr_mbuf_drain`. -/
  | drain
  /-- Behind `pgr_mbuf_drain`. -/
  | redirect
  /-- At the head of the loop of the COPY DATA sub-protocol. -/
  | copyRecv
  /-- At the label `shutdown`. -/
  | shutdown
  deriving DecidableEq

/-- The state of a session. -/
structure Session where
  /-- Where it is. -/
  pc : Pc
  /-- Its descriptors. -/
  fds : Descriptors
  /-- The backend that the request goes to. -/
  befd : Fd
  /-- Whether a transaction is open. -/
  inTxn : Bool
  /-- Messages of the client. -/
  fe : Mbuf
  /-- Messages of a backend. -/
  be : Mbuf
  /-- The kernel. -/
  kernel : Kernel

/-- Before the outer loop. `befd` is not initialised in the source, and is assigned before it
is read. -/
def Session.start (fds : Descriptors) (kernel : Kernel) : Session where
  pc := .loopHead
  fds := fds
  befd := MBUF_NO_FD
  inTxn := false
  fe := pgrMbufSetfd (pgrMbufNew 16384) fds.frontend MBUF_NO_FD
  be := pgrMbufSetfd (pgrMbufNew 4096) MBUF_NO_FD fds.frontend
  kernel := kernel

/-! ### Recognising a query -/

/-- `"begin"`. -/
def BEGIN : List Octet := [0x62, 0x65, 0x67, 0x69, 0x6e]

/-- `"commit"`. -/
def COMMIT : List Octet := [0x63, 0x6f, 0x6d, 0x6d, 0x69, 0x74]

/-- `"25006"`, read_only_sql_transaction. -/
def BAD_ROUTING : List Octet := [0x32, 0x35, 0x30, 0x30, 0x36]

/-- `"X\0\0\0\x4"`, a Terminate message. -/
def TERMINATE : List Octet := [0x58, 0, 0, 0, 4]

/-- `query = pgr_mbuf_data(fe, 0, n); query && strncasecmp(query, word, n) == 0`, where `n`
is the length of `word`. -/
def queryBegins (m : Mbuf) (word : List Octet) : Bool :=
  match pgrMbufData m 0 word.length with
  | none => false
  | some x => strncasecmp (slice m.buf x (x + word.length)) word word.length = 0

/-! ### The parts of a round -/

namespace Session

/-- On to another part of the program. -/
def goto (s : Session) (pc : Pc) : Session := { s with pc := pc }

/-- `pgr_mbuf_setfd(fe, MBUF_SAME_FD, befd)` and `pgr_mbuf_setfd(be, befd, MBUF_SAME_FD)`. -/
def setBackend (s : Session) : Session :=
  { s with fe := pgrMbufSetfd s.fe MBUF_SAME_FD s.befd, be := pgrMbufSetfd s.be s.befd MBUF_SAME_FD }

/-- What a function on `fe` leaves. -/
def withFe (s : Session) (r : Outcome) : ℤ × Session := (r.1, { s with fe := r.2.1, kernel := r.2.2 })

/-- What a function on `be` leaves. -/
def withBe (s : Session) (r : Outcome) : ℤ × Session := (r.1, { s with be := r.2.1, kernel := r.2.2 })

/-- `pgr_mbuf_recv(fe)`. -/
def recvFe (s : Session) : ℤ × Session := s.withFe (pgrMbufRecv s.fe s.kernel)

/-- `pgr_mbuf_recv(be)`. -/
def recvBe (s : Session) : ℤ × Session := s.withBe (pgrMbufRecv s.be s.kernel)

/-- `pgr_mbuf_send(fe)`. -/
def sendFe (s : Session) : ℤ × Session := s.withFe (pgrMbufSend s.fe s.kernel)

/-- `pgr_mbuf_relay(fe)`. -/
def relayFe (s : Session) : ℤ × Session := s.withFe (pgrMbufRelay s.fe s.kernel)

/-- `pgr_mbuf_relay(be)`. -/
def relayBe (s : Session) : ℤ × Session := s.withBe (pgrMbufRelay s.be s.kernel)

/-- A transaction begins: it is forced to the writer. -/
def beginTxn (s : Session) : Session :=
  { s with inTxn := true, befd := s.fds.writer, fe := pgrMbufSetfd s.fe MBUF_SAME_FD s.fds.writer }

/-- The block `if (type == 'Q')`. -/
def route (s : Session) : Session :=
  if pgrMbufMsgtype s.fe = chr 'Q' then
    let s := if queryBegins s.fe BEGIN then s.beginTxn else s
    if queryBegins s.fe COMMIT then { s with inTxn := false } else s
  else s

/-- The block `if (type == 'X')`. -/
def terminate (s : Session) : Session :=
  let (_, k) := pgrSendn s.kernel s.fds.reader TERMINATE
  let (_, k) := pgrSendn k s.fds.writer TERMINATE
  { s with kernel := k }.goto .shutdown

/-! ### The rounds -/

/-- The head of the outer loop. -/
def loopHead (s : Session) : Session :=
  let s := if s.inTxn then s else { s with befd := s.fds.reader }
  s.setBackend.goto .feRecv

/-- A message of the request is received and sent. -/
def feRecv (s : Session) : Session :=
  let (rc, s) := s.recvFe
  if rc < 0 then s.goto .shutdown
  else
    let type := pgrMbufMsgtype s.fe
    let (rc, s) := s.route.sendFe
    if rc ≠ 0 then s.goto .shutdown
    else if type = chr 'X' then s.terminate
    else if type ≠ chr 'Q' ∧ type ≠ chr 'S' then s.goto .feRecv
    else s.goto .beRecv

/-- A message of the reply is received, and relayed unless it is the error that redirects
the request. -/
def beRecv (s : Session) : Session :=
  let (rc, s) := s.recvBe
  if rc < 0 then s.goto .shutdown
  else
    let type := pgrMbufMsgtype s.be
    if pgrMbufIserror s.be (some BAD_ROUTING) = 0 ∧ s.befd = s.fds.reader then s.goto .drain
    else
      let (rc, s) := s.relayBe
      if rc ≠ 0 then s.goto .shutdown
      else if type = chr 'G' then s.goto .copyRecv
      else if type ≠ chr 'Z' then s.goto .beRecv
      else s.goto .loopHead

/-- A round of `pgr_mbuf_drain(be, 'Z')`. -/
def drain (s : Session) : Session :=
  match drainRound (chr 'Z') s.be s.kernel with
  | .ok (be, k) => { s with be := be, kernel := k }
  | .error (_, be, k) => { s with be := be, kernel := k }.goto .redirect

/-- The request is resent to the writer. -/
def redirect (s : Session) : Session :=
  let s := { s with befd := s.fds.writer }.setBackend
  let (_, fe, k) := pgrMbufResend s.fe s.kernel
  { s with fe := pgrMbufReset fe, kernel := k }.goto .beRecv

/-- A message of the COPY DATA sub-protocol is received and relayed. Behind it the
`continue` goes to the test of `type`, which is not `'Z'`. -/
def copyRecv (s : Session) : Session :=
  let (rc, s) := s.recvFe
  if rc < 0 then s.goto .shutdown
  else
    let type := pgrMbufMsgtype s.fe
    let (rc, s) := s.relayFe
    if rc ≠ 0 then s.goto .shutdown
    else if type ≠ chr 'c' ∧ type ≠ chr 'F' then s.goto .copyRecv
    else s.goto .beRecv

/-- A step of the session. -/
def step (s : Session) : Session :=
  match s.pc with
  | .loopHead => s.loopHead
  | .feRecv => s.feRecv
  | .beRecv => s.beRecv
  | .drain => s.drain
  | .redirect => s.redirect
  | .copyRecv => s.copyRecv
  | .shutdown => s

end Session

end PgRouter.Worker
