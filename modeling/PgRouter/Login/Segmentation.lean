import PgRouter.Login.Output
import PgRouter.Login.Parameters
import PgRouter.Wire.Chunks

/-!
# How the messages of a login arrive

The network may deliver a message in parts, and `pgr_mbuf_recv` is content with five octets. What
`pgr_mbuf_msgtype`, `extract_params` and `check_auth` need beyond those is looked for in the buffer,
whether it has arrived or not.

## What is proved

If the client sends each message only after the reply to the one before, and each message has arrived as
a whole when `pgr_mbuf_recv` returns, then a login does not depend on the parts in which they have
arrived: two logins that differ in nothing else have the same outcome, with the same parameters
(`login_alike`). Otherwise it may: the user whose StartupMessage arrives in two parts is not found
(`not_login_alike`).
-/

namespace PgRouter.Login

open Foundation Wire

namespace Accept

/-! ### Logins that differ in the reads to come -/

/-- The login, with other reads to come. -/
def withReads (l : Accept) (r : Stream' ReadChoice) : Accept := { l with kernel := l.kernel.withReads r }

/-- Two logins that have the same outcome, and as long as they go on differ in the reads to come only. -/
structure Alike (l l' : Accept) : Prop where
  /-- They are at the same place. -/
  stage : l'.stage = l.stage
  /-- Their connections are the same. -/
  conn : l'.conn = l.conn
  /-- As long as they go on, everything else is the same but the reads to come. -/
  goes : l.stage = .receiving → ∃ r, l' = l.withReads r

theorem relay_conn (l : Accept) : l.relay.2.conn = l.conn := rfl

theorem alike_withReads (l : Accept) (r : Stream' ReadChoice) : Alike l (l.withReads r) := ⟨rfl, rfl, fun _ => ⟨r, rfl⟩⟩

/-- They return. -/
theorem alike_ret {l l' : Accept} (hconn : l'.conn = l.conn) (rc : ℤ) : Alike (l.ret rc) (l'.ret rc) :=
  ⟨rfl, hconn, fun h => Stage.noConfusion h⟩

theorem discard_withReads {l : Accept} (h : size l.mbuf ≤ l.mbuf.available) (r : Stream' ReadChoice) :
    (l.withReads r).discard = l.discard.withReads r := by
  unfold discard withMbuf
  rw [show (l.withReads r).mbuf = l.mbuf from rfl, pgrMbufDiscard_whole h, pgrMbufDiscard_whole h]
  rfl

/-- A reply that is appended to an empty buffer is sent without reading. -/
theorem InOrder.reply_withReads {l : Accept} (h : l.InOrder) (hempty : l.mbuf.window = []) {d : List Octet}
    (h5 : 5 ≤ d.length) (hsize : frameSize d = d.length) (hroom : d.length ≤ 512) {r : Stream' ReadChoice}
    (hr : (l.withReads r).kernel.ReadsOk) : (l.withReads r).reply (pgrMbufCat l.mbuf d) =
      ((l.reply (pgrMbufCat l.mbuf d)).1, (l.reply (pgrMbufCat l.mbuf d)).2.withReads r) := by
  obtain ⟨hrep, ha, hwin, hwhole⟩ := h.reply_empty hempty h5 hsize hroom
  have h' : (l.withReads r).InOrder := ⟨h.wf, h.start, h.len, hr⟩
  obtain ⟨hrep', -⟩ := h'.reply_empty hempty h5 hsize hroom
  rw [hrep, show (l.withReads r).reply (pgrMbufCat l.mbuf d) = _ from hrep']
  exact congrArg (fun o : Outcome => (o.1, { l with mbuf := o.2.1, kernel := o.2.2 }))
    (pgrMbufRelay_withReads hwhole l.kernel r)

/-! ### A message that has arrived -/

/-- The buffer contains the message `msg`, and `rest` is still to come. -/
structure Whole (l : Accept) (msg : Message) (rest : List Octet) : Prop where
  /-- The login is in order. -/
  inOrder : l.InOrder
  /-- The message is one that is expected. -/
  request : IsRequest msg
  /-- It is all that is in the buffer. -/
  window : l.mbuf.window = msg.octets
  /-- What follows it has not been read. -/
  rest : l.rest = rest

theorem Whole.available {l : Accept} {msg : Message} {rest : List Octet} (h : Whole l msg rest) :
    l.mbuf.available = msg.octets.length := by rw [← length_window, h.window]

theorem Whole.size {l : Accept} {msg : Message} {rest : List Octet} (h : Whole l msg rest) :
    size l.mbuf ≤ l.mbuf.available := by
  have hsize := h.request.frameSize []
  rw [List.append_nil] at hsize
  rw [← frameSize_window h.inOrder.wf (by rw [h.available]; exact h.request.length.1), h.window, hsize, h.available]

/-- Once it is discarded the buffer is empty. -/
theorem Whole.parsed {l : Accept} {msg : Message} {rest : List Octet} (h : Whole l msg rest) (c : Connection) :
    (l.parsed c).InOrder ∧ (l.parsed c).mbuf.window = [] ∧ (l.parsed c).rest = rest := by
  have hd := h.inOrder.parsed (.inl (by rw [h.available]; exact h.request.length.1)) c
  have hkernel : (l.parsed c).kernel = l.kernel :=
    congrArg (fun o : Outcome => o.2.2) (pgrMbufDiscard_whole h.size l.kernel)
  have hrest : (l.parsed c).rest = rest := by rw [Accept.rest, hkernel, hd.infd, ← h.rest, Accept.rest]
  have hs := hd.stream_eq
  rw [stream_eq, stream_eq, h.window, h.rest, h.request.current, hrest] at hs
  exact ⟨h.inOrder.moved hd, List.append_left_eq_self.mp (List.append_cancel_left hs), hrest⟩

theorem sslRequest_withReads {l : Accept} (h : size l.mbuf ≤ l.mbuf.available) (r : Stream' ReadChoice) :
    (l.withReads r).sslRequest = l.sslRequest.withReads r := by
  rcases hwrite : l.discard.kernel.write l.discard.conn.fd NO_SSL with ⟨n, k⟩
  have hwrite' : (l.discard.withReads r).kernel.write (l.discard.withReads r).conn.fd NO_SSL = (n, k.withReads r) :=
    (write_withReads l.discard.kernel r l.discard.conn.fd NO_SSL).trans (by rw [hwrite])
  unfold sslRequest
  rw [discard_withReads h]
  simp only [hwrite, hwrite']
  split_ifs <;> rfl

/-- The password is asked for whatever the reads to come are. -/
theorem Whole.startupMessage {l : Accept} {msg : Message} {rest : List Octet} (h : Whole l msg rest)
    {r : Stream' ReadChoice} (hr : (l.withReads r).kernel.ReadsOk) (ctx : Context) :
    Alike (l.startupMessage ctx) ((l.withReads r).startupMessage ctx) := by
  unfold Accept.startupMessage
  rw [show extractParams ctx (l.withReads r).conn (l.withReads r).mbuf = extractParams ctx l.conn l.mbuf from rfl]
  rcases extractParams ctx l.conn l.mbuf with _ | ⟨rc, c⟩
  · exact alike_withReads _ r
  by_cases hrc : rc ≠ 0
  · simp only [if_pos hrc]
    exact alike_withReads { l with conn := c, stage := .returned rc } r
  simp only [if_neg hrc]
  obtain ⟨hin, hempty, -⟩ := h.parsed c
  have hparsed : discard { l.withReads r with conn := c } = (l.parsed c).withReads r :=
    discard_withReads (l := { l with conn := c }) h.size r
  have hreply : ((l.parsed c).withReads r).reply (authMd5Message (l.parsed c).mbuf (l.parsed c).conn) =
      ((l.parsed c).challenge.1, (l.parsed c).challenge.2.withReads r) :=
    hin.reply_withReads hempty (d := challengeText c.salt) (by simp) (by rw [length_challengeText]; rfl) (by simp) hr
  rw [hparsed, show ((l.parsed c).withReads r).mbuf = (l.parsed c).mbuf from rfl,
    show ((l.parsed c).withReads r).conn = (l.parsed c).conn from rfl, hreply,
    show discard { l with conn := c } = l.parsed c from rfl]
  unfold challenge
  split_ifs
  · exact alike_withReads _ r
  · exact alike_withReads _ r

/-- The password is looked at, and the client is told, whatever the reads to come are. -/
theorem Whole.passwordMessage {l : Accept} {msg : Message} {rest : List Octet} (h : Whole l msg rest)
    {r : Stream' ReadChoice} (hr : (l.withReads r).kernel.ReadsOk) (stack : ℕ → Octet) :
    Alike (l.passwordMessage stack) ((l.withReads r).passwordMessage stack) := by
  unfold Accept.passwordMessage
  rw [show Login.checkAuth stack (l.withReads r).conn (l.withReads r).mbuf =
    Login.checkAuth stack l.conn l.mbuf from rfl]
  rcases Login.checkAuth stack l.conn l.mbuf with _ | rc
  · exact alike_withReads _ r
  by_cases hrc : rc ≠ 0
  · -- the client may have to send more before it is told, but the login is over then
    simp only [if_pos hrc]
    refine alike_ret ?_ 1
    rw [relay_conn, relay_conn]
    rfl
  simp only [if_neg hrc]
  obtain ⟨hin, hempty, -⟩ := h.parsed l.conn
  have hwelcome : (l.discard.withReads r).reply (authOkMessage l.discard.mbuf) =
      (l.discard.welcome.1, l.discard.welcome.2.withReads r) :=
    hin.reply_withReads hempty (d := [0x52, 0, 0, 0, 0x8, 0, 0, 0, 0]) (by decide) (by decide) (by decide) hr
  rw [discard_withReads h.size, show (l.discard.withReads r).mbuf = l.discard.mbuf from rfl, hwelcome,
    show l.discard.reply (authOkMessage l.discard.mbuf) = l.discard.welcome from rfl]
  by_cases hreply : l.discard.welcome.1 ≠ 0
  · simp only [if_pos hreply]
    exact alike_withReads (l.discard.welcome.2.ret _) r
  simp only [if_neg hreply]
  obtain ⟨hin', hempty', -⟩ := hin.reply_done hempty (d := [0x52, 0, 0, 0, 0x8, 0, 0, 0, 0])
    (by decide) (by decide) (by decide)
  have hready : (l.discard.welcome.2.withReads r).reply (readyForQuery l.discard.welcome.2.mbuf) =
      (l.discard.welcome.2.ready.1, l.discard.welcome.2.ready.2.withReads r) :=
    hin'.reply_withReads hempty' (d := [0x5a, 0, 0, 0, 0x5, 0x49]) (by decide) (by decide) (by decide) hr
  rw [show (l.discard.welcome.2.withReads r).mbuf = l.discard.welcome.2.mbuf from rfl, hready,
    show l.discard.welcome.2.reply (readyForQuery l.discard.welcome.2.mbuf) = l.discard.welcome.2.ready from rfl]
  by_cases hlast : l.discard.welcome.2.ready.1 ≠ 0
  · simp only [if_pos hlast]
    exact alike_withReads (l.discard.welcome.2.ready.2.ret _) r
  · simp only [if_neg hlast]
    exact alike_withReads (l.discard.welcome.2.ready.2.ret 0) r

/-- **A message that has arrived is answered** whatever the reads to come are. -/
theorem Whole.dispatch {l : Accept} {msg : Message} {rest : List Octet} (h : Whole l msg rest) {r : Stream' ReadChoice}
    (hr : (l.withReads r).kernel.ReadsOk) (ctx : Context) (stack : ℕ → Octet) :
    Alike (l.dispatch ctx stack) ((l.withReads r).dispatch ctx stack) := by
  unfold Accept.dispatch
  rw [show (l.withReads r).mbuf = l.mbuf from rfl]
  simp only
  split_ifs
  · rw [sslRequest_withReads h.size]
    exact alike_withReads _ r
  · rw [cancelRequest, cancelRequest, discard_withReads h.size]
    exact alike_withReads _ r
  · exact h.startupMessage hr ctx
  · exact h.passwordMessage hr stack
  · exact alike_withReads _ r

/-- A round that does not end the loop leaves an empty buffer. -/
theorem Round.next {ctx : Context} {stack : ℕ → Octet} {l l' : Accept} {msg : Message} {rest : List Octet}
    (hround : Round ctx stack l l') (h : Whole l msg rest) (hgo : l'.stage = .receiving) :
    l'.InOrder ∧ l'.mbuf.window = [] ∧ l'.rest = rest := by
  cases hround with
  | ssl =>
    obtain ⟨hin, hempty, hrest⟩ := h.parsed l.conn
    exact ⟨hin.noSsl, hempty, (noSsl_rest l.discard).trans hrest⟩
  | cancel => exact h.parsed l.conn
  | @startup c =>
    obtain ⟨hin, hempty, hrest⟩ := h.parsed c
    obtain ⟨hin', hempty', hrest'⟩ := hin.reply_done hempty (d := challengeText c.salt) (by simp)
      (by rw [length_challengeText]; rfl) (by simp)
    exact ⟨hin', hempty', hrest'.trans hrest⟩
  | sslFailed => cases hgo
  | startupFault => cases hgo
  | startupRefused => cases hgo
  | startupFailed => cases hgo
  | passwordFault => cases hgo
  | refused => cases hgo
  | welcomeFailed => cases hgo
  | readyFailed => cases hgo
  | accepted => cases hgo
  | unknown => cases hgo

/-- A round in which memory is looked at that is not its own is about a short password. -/
theorem Round.short {ctx : Context} {stack : ℕ → Octet} {l l' : Accept} {msg : Message} {rest : List Octet}
    (hround : Round ctx stack l l') (h : Whole l msg rest) (hs : l.stage = .receiving) (hfault : l'.stage = .fault) :
    msg.type = some 0x70 ∧ msg.octets.length < 40 := by
  cases hround with
  | startupFault type params =>
    exact absurd params (h.request.extractParams h.inOrder.wf h.inOrder.start h.window type ctx l.conn)
  | passwordFault type auth => exact h.request.checkAuth h.window type auth
  | ssl =>
    have hgo : l.stage = .fault := hfault
    rw [hs] at hgo
    cases hgo
  | cancel =>
    have hgo : l.stage = .fault := hfault
    rw [hs] at hgo
    cases hgo
  | startup =>
    rw [challenge_stage] at hfault
    have hgo : l.stage = .fault := hfault
    rw [hs] at hgo
    cases hgo
  | sslFailed => cases hfault
  | startupRefused => cases hfault
  | startupFailed => cases hfault
  | refused => cases hfault
  | welcomeFailed => cases hfault
  | readyFailed => cases hfault
  | accepted => cases hfault
  | unknown => cases hfault

/-! ### Two logins -/

/-- Before a message arrives: the buffer is empty, and the messages `ms` are to come. -/
structure AtHead (l : Accept) (ms : List Message) : Prop where
  /-- The login is in order. -/
  inOrder : l.InOrder
  /-- Nothing is in the buffer. -/
  empty : l.mbuf.window = []
  /-- The messages are still to be read. -/
  rest : l.rest = streamOf ms
  /-- They are messages that are expected. -/
  requests : ∀ msg ∈ ms, IsRequest msg

/-- The client sends a message only after the reply to the one before: what has been received is no more
than a message. -/
def Paced (l : Accept) : Prop := l.stage = .receiving → l.recv.2.mbuf.window <+: current l.stream

/-- A message has arrived as a whole when it has been received. -/
def Arrived (l : Accept) : Prop := l.stage = .receiving → (current l.stream).length ≤ l.recv.2.mbuf.available

/-- So just a message is received. -/
theorem recv_window {l : Accept} (hs : l.stage = .receiving) (hp : Paced l) (ha : Arrived l) :
    l.recv.2.mbuf.window = current l.stream :=
  (hp hs).eq_of_length_le (by rw [length_window]; exact ha hs)

/-- The message has been put into the buffer. -/
def received (l : Accept) : Accept :=
  { l with
    mbuf := l.mbuf.put (current l.stream)
    kernel := { l.kernel with
      unread := Function.update l.kernel.unread l.mbuf.infd
        ((l.kernel.unread l.mbuf.infd).drop (current l.stream).length) } }

/-- What has been received does not depend on the parts in which it has arrived. -/
theorem AtHead.recv {l : Accept} {ms : List Message} (h : AtHead l ms) (hs : l.stage = .receiving) (hp : Paced l)
    (ha : Arrived l) : ∃ r, l.recv.2 = l.received.withReads r := by
  obtain ⟨d, r, -, heq⟩ := pgrMbufRecv_put l.mbuf l.kernel
  have hmbuf : l.recv.2.mbuf = l.mbuf.put d := congrArg Prod.fst heq
  have hwin := recv_window hs hp ha
  rw [hmbuf, window_put h.inOrder.wf, h.empty, List.nil_append] at hwin
  subst hwin
  exact ⟨r, congrArg (fun o : Mbuf × Kernel => { l with mbuf := o.1, kernel := o.2 }) heq⟩

theorem AtHead.stream {l : Accept} {ms : List Message} (h : AtHead l ms) : l.stream = streamOf ms := by
  rw [stream_eq, h.empty, h.rest, List.nil_append]

/-- The next message has arrived as a whole. -/
theorem AtHead.whole {l : Accept} {msg : Message} {ms : List Message} (h : AtHead l (msg :: ms))
    (hs : l.stage = .receiving)
    (hp : Paced l) (ha : Arrived l) : Whole l.recv.2 msg (streamOf ms) := by
  have hreq := h.requests msg List.mem_cons_self
  have hm := h.inOrder.recv.1
  have hwin := recv_window hs hp ha
  rw [h.stream, streamOf_cons, hreq.current] at hwin
  have hstream : l.recv.2.stream = l.stream := hm.stream_eq
  rw [stream_eq, hwin, h.stream, streamOf_cons] at hstream
  exact ⟨h.inOrder.moved hm, hreq, hwin, List.append_cancel_left hstream⟩

/-- After the last message there is nothing. -/
theorem AtHead.step_nil {l : Accept} (h : AtHead l []) (hs : l.stage = .receiving) (hp : Paced l) (ha : Arrived l)
    (ctx : Context) (stack : ℕ → Octet) :
    pgrMbufMsgtype l.recv.2.mbuf = -1 ∧ l.step ctx stack = l.recv.2.ret (-1) := by
  have hwin := recv_window hs hp ha
  rw [h.stream, show streamOf [] = [] from rfl, current_of_lt (by decide)] at hwin
  have hav : l.recv.2.mbuf.available = 0 := by rw [← length_window, hwin]; rfl
  have htype : pgrMbufMsgtype l.recv.2.mbuf = -1 := by rw [pgrMbufMsgtype, if_pos hav]
  refine ⟨htype, ?_⟩
  rw [h.inOrder.step_eq hs, Accept.dispatch, htype]
  rfl

/-- Two logins that differ in the reads to come, when they are at the same place. -/
structure Pair (ms : List Message) (l l' : Accept) : Prop extends Alike l l' where
  /-- As long as they go on, the same messages are to come. -/
  head : l.stage = .receiving → ∃ ms', ms' <:+ ms ∧ AtHead l ms' ∧ AtHead l' ms'
  /-- Memory is looked at that is not the program's own when a password is short. -/
  short : l.stage = .fault → ∃ msg ∈ ms, msg.type = some 0x70 ∧ msg.octets.length < 40

/-- **A step of both.** -/
theorem Pair.step {ms : List Message} {l l' : Accept} (h : Pair ms l l') (hp : Paced l) (ha : Arrived l)
    (hp' : Paced l')
    (ha' : Arrived l') (ctx : Context) (stack : ℕ → Octet) :
    Pair ms (l.step ctx stack) (l'.step ctx stack) ∧
      (l.stage = .receiving → pgrMbufMsgtype l'.recv.2.mbuf = pgrMbufMsgtype l.recv.2.mbuf) := by
  by_cases hs : l.stage = .receiving
  swap
  · have hs' : l'.stage ≠ .receiving := by rwa [h.stage]
    rw [step_over hs, step_over hs']
    exact ⟨h, fun hs' => absurd hs' hs⟩
  obtain ⟨ms', hsuf, hhead, hhead'⟩ := h.head hs
  obtain ⟨r, rfl⟩ := h.goes hs
  cases ms' with
  | nil =>
    obtain ⟨htype, hstep⟩ := hhead.step_nil hs hp ha ctx stack
    obtain ⟨htype', hstep'⟩ := hhead'.step_nil hs hp' ha' ctx stack
    rw [hstep, hstep', htype, htype']
    have hconn : (l.withReads r).recv.2.conn = l.recv.2.conn := rfl
    exact ⟨⟨alike_ret hconn (-1), fun h => Stage.noConfusion h, fun h => Stage.noConfusion h⟩, fun _ => rfl⟩
  | cons msg ms' =>
    obtain ⟨r₁, hrecv⟩ := hhead.recv hs hp ha
    obtain ⟨r₂, hrecv'⟩ := hhead'.recv hs hp' ha'
    have hsame : (l.withReads r).recv.2 = l.recv.2.withReads r₂ := by
      rw [hrecv, hrecv']
      rfl
    have hwhole := hhead.whole hs hp ha
    have hwhole' := hhead'.whole hs hp' ha'
    have hround := dispatch_round ctx stack l.recv.2
    have hround' := dispatch_round ctx stack (l.withReads r).recv.2
    rw [hhead.inOrder.step_eq hs, hhead'.inOrder.step_eq hs]
    have halike := hwhole.dispatch (hsame ▸ hwhole'.inOrder.reads) ctx stack
    rw [← hsame] at halike
    refine ⟨⟨halike, fun hgo => ?_, fun hfault => ⟨msg, hsuf.subset List.mem_cons_self, hround.short hwhole hs hfault⟩⟩,
      fun _ => by rw [hsame]; rfl⟩
    obtain ⟨hin, hempty, hrest⟩ := hround.next hwhole hgo
    obtain ⟨hin', hempty', hrest'⟩ := hround'.next hwhole' (halike.stage.trans hgo)
    have hrequests : ∀ m ∈ ms', IsRequest m := fun m hm => hhead.requests m (List.mem_cons_of_mem msg hm)
    exact ⟨ms', (List.suffix_cons msg ms').trans hsuf, ⟨hin, hempty, hrest, hrequests⟩,
      ⟨hin', hempty', hrest', hrequests⟩⟩

/-- **A login does not depend on the parts in which its messages arrive**, if they arrive as a whole
before they are looked at. -/
theorem login_alike (ctx : Context) (stack : ℕ → Octet) (salt : Vector Octet 4) {fd : Fd} (hfd : 0 ≤ fd) {k : Kernel}
    {r : Stream' ReadChoice} (hr : k.ReadsOk) (hr' : (k.withReads r).ReadsOk) {ms : List Message}
    (hms : ∀ msg ∈ ms, IsRequest msg) (hunread : k.unread fd = streamOf ms) (n : ℕ)
    (hpaced : ∀ i < n, Paced (run ctx stack salt fd k i))
    (hpaced' : ∀ i < n, Paced (run ctx stack salt fd (k.withReads r) i))
    (harrived : ∀ i < n, Arrived (run ctx stack salt fd k i))
    (harrived' : ∀ i < n, Arrived (run ctx stack salt fd (k.withReads r) i)) :
    (run ctx stack salt fd (k.withReads r) n).stage = (run ctx stack salt fd k n).stage ∧
      (run ctx stack salt fd (k.withReads r) n).conn = (run ctx stack salt fd k n).conn ∧
      (∀ i < n, (run ctx stack salt fd k i).stage = .receiving →
        pgrMbufMsgtype (run ctx stack salt fd (k.withReads r) i).recv.2.mbuf =
          pgrMbufMsgtype (run ctx stack salt fd k i).recv.2.mbuf) ∧
      ((run ctx stack salt fd k n).stage = .fault → ∃ msg ∈ ms, msg.type = some 0x70 ∧ msg.octets.length < 40) := by
  have hne : fd ≠ MBUF_SAME_FD := by
    rintro rfl
    exact absurd hfd (by decide)
  have hrest : (start (pgrConnFrontend (pgrConnInit salt) fd) k).rest = streamOf ms := by
    rw [← hunread]
    exact congrArg k.unread (if_pos hne)
  have hpair : ∀ i ≤ n, Pair ms (run ctx stack salt fd k i) (run ctx stack salt fd (k.withReads r) i) := by
    intro i hi
    induction i with
    | zero =>
      exact ⟨alike_withReads _ r, fun _ => ⟨ms, List.suffix_rfl, ⟨start_inOrder _ hr, rfl, hrest, hms⟩,
        ⟨start_inOrder _ hr', rfl, hrest, hms⟩⟩, fun h => Stage.noConfusion h⟩
    | succ i ih =>
      rw [run_succ, run_succ]
      exact ((ih (by omega)).step (hpaced i hi) (harrived i hi) (hpaced' i hi) (harrived' i hi) ctx stack).1
  obtain ⟨hn, -, hshort⟩ := hpair n le_rfl
  refine ⟨hn.stage, hn.conn, fun i hi => ?_, hshort⟩
  exact ((hpair i hi.le).step (hpaced i hi) (harrived i hi) (hpaced' i hi) (harrived' i hi) ctx stack).2

instance (l : Accept) : Decidable (Paced l) := inferInstanceAs (Decidable (_ → _))

instance (l : Accept) : Decidable (Arrived l) := inferInstanceAs (Decidable (_ → _))

/-- The messages of `bob`. -/
def bobMessages : List Message :=
  [⟨none, nofun, [0, 3, 0, 0] ++ paramsOctets [⟨USER, [0x62, 0x6f, 0x62]⟩]⟩,
    ⟨some 0x70, by decide, ([0x6d, 0x64, 0x35] ++
      MessageDigest.hex (MessageDigest.digest ([0x68, 0x61, 0x73, 0x68] ++ someSalt.toList))) ++ [0]⟩]

theorem isRequest_bobMessages : ∀ msg ∈ bobMessages, IsRequest msg := by
  intro msg hmsg
  rcases List.mem_cons.mp hmsg with rfl | hmsg
  · refine .startup rfl (fun p hp => ?_) (by decide)
    rw [List.mem_singleton.mp hp]
    exact ⟨by decide, by decide, by decide⟩
  · rw [List.mem_singleton.mp hmsg]
    exact .password (by decide +kernel) (by decide +kernel)

/-- Reads that deliver at most `a` octets, then at most `b`, and then as many as there are. -/
def twoParts (a b : ℕ) : Stream' ReadChoice :=
  Stream'.cons (.upto a) (Stream'.cons (.upto b) (Stream'.const (.upto (2 ^ 16))))

/-- The StartupMessage of `bob` arrives in two parts, the first too short for a message. -/
theorem login_alike_bob :
    (run someContext (fun _ => 0) someSalt 3 (bobKernel.withReads (twoParts 2 16)) 2).stage = .returned 0 := by
  have hr : bobKernel.ReadsOk := fun i => by cases i <;> exact ReadChoice.noConfusion
  have hr' : (bobKernel.withReads (twoParts 2 16)).ReadsOk := fun i => by
    rcases i with _ | _ | i <;> exact ReadChoice.noConfusion
  have hsame := login_alike someContext (fun _ => 0) someSalt (show (0 : Fd) ≤ 3 by decide) hr hr' isRequest_bobMessages
    (by decide +kernel) 2 (fun i hi => by interval_cases i <;> decide +kernel)
    (fun i hi => by interval_cases i <;> decide +kernel) (fun i hi => by interval_cases i <;> decide +kernel)
    (fun i hi => by interval_cases i <;> decide +kernel)
  rw [hsame.1]
  decide +kernel

/-- The StartupMessage of `bob` arrives in two parts, the first of five octets, and he is not let in. -/
theorem not_login_alike :
    (∀ msg ∈ bobMessages, IsRequest msg) ∧ bobKernel.unread 3 = streamOf bobMessages ∧
      (∀ i < 2, Paced (run someContext (fun _ => 0) someSalt 3 bobKernel i)) ∧
      (∀ i < 2, Paced (run someContext (fun _ => 0) someSalt 3 (bobKernel.withReads (twoParts 5 13)) i)) ∧
      (run someContext (fun _ => 0) someSalt 3 bobKernel 2).stage = .returned 0 ∧
      (run someContext (fun _ => 0) someSalt 3 (bobKernel.withReads (twoParts 5 13)) 2).stage = .returned 1 :=
  ⟨isRequest_bobMessages, by decide +kernel, fun i hi => by interval_cases i <;> decide +kernel,
    fun i hi => by interval_cases i <;> decide +kernel, by decide +kernel, by decide +kernel⟩

end Accept

end PgRouter.Login
