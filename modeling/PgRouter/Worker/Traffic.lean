import PgRouter.Wire.Framing
import PgRouter.Worker.Rounds

/-!
# What a session sends

The octets that each round passes on, and to whom: from the client to a backend (`forwarded`,
and `copied` in the COPY DATA sub-protocol) and from a backend to the client (`relayed`). They
are read off the trace of the kernel, and what the operations of `msg.c` do to the pending
streams says which octets they are.
-/

namespace PgRouter.Worker

open Foundation Wire

/-- The octets accepted between `k` and `k'`, and by which descriptor. -/
def newlySent (k k' : Kernel) : List (Fd × Octet) := k'.sent.drop k.sent.length

theorem newlySent_eq {k k' : Kernel} {w : List (Fd × Octet)} (h : k'.sent = k.sent ++ w) : newlySent k k' = w := by
  rw [newlySent, h, List.drop_left]

theorem newlySent_self (k : Kernel) : newlySent k k = [] := newlySent_eq (List.append_nil _).symm

/-- The octets, to whomever they have been sent. -/
def contents (w : List (Fd × Octet)) : List Octet := w.map Prod.snd

@[simp] theorem contents_nil : contents [] = [] := rfl

@[simp] theorem contents_append (w w' : List (Fd × Octet)) : contents (w ++ w') = contents w ++ contents w' :=
  List.map_append

@[simp] theorem contents_map (fd : Fd) (w : List Octet) : contents (w.map (Prod.mk fd)) = w := by
  rw [contents, List.map_map]
  exact List.map_id w

/-- A message that begins with an octet other than `0` is not empty. -/
theorem size_pos {m : Mbuf} (hav : 5 ≤ m.available) (h0 : m.buf m.start ≠ 0) : 0 < size m := by
  rw [size, if_neg (by omega), if_neg h0]
  omega

namespace Session

/-- What `pgr_mbuf_send` sends in this round. -/
def forwarded (s : Session) : List (Fd × Octet) :=
  if s.recvFe.1 < 0 then [] else newlySent s.recvFe.2.kernel s.recvFe.2.route.sendFe.2.kernel

/-- What `pgr_mbuf_relay` sends of the client's octets in this round. -/
def copied (s : Session) : List (Fd × Octet) :=
  if s.recvFe.1 < 0 then [] else newlySent s.recvFe.2.kernel s.recvFe.2.relayFe.2.kernel

/-- What `pgr_mbuf_relay` sends of a backend's octets in this round. -/
def relayed (s : Session) : List (Fd × Octet) :=
  if s.recvBe.1 < 0 ∨ (pgrMbufIserror s.recvBe.2.be (some BAD_ROUTING) = 0 ∧ s.befd = s.fds.reader) then []
  else newlySent s.recvBe.2.kernel s.recvBe.2.relayBe.2.kernel

/-- A session whose every `write` accepts all. -/
structure Steady (s : Session) : Prop where
  /-- The session is sound. -/
  sound : s.Sound
  /-- The cache of `fe` is in order. -/
  cached : s.fe.Cached
  /-- Every `write` accepts all. -/
  writes : s.kernel.WritesAll

theorem start_steady (fds : Descriptors) {kernel : Kernel} (hw : kernel.WritesAll) : (start fds kernel).Steady :=
  ⟨start_sound fds kernel, cached_of_none rfl, hw⟩

/-- What `pgr_mbuf_send` forwards goes from the pending stream of the client to the log. When
it returns `0`, that is the current message. -/
structure Forwarded (s : Session) : Prop where
  /-- It was the first of what was pending, and the rest is pending. -/
  pending : contents s.forwarded ++ pending s.recvFe.2.route.sendFe.2.fe s.recvFe.2.route.sendFe.2.kernel =
    pending s.fe s.kernel
  /-- It is logged. -/
  log : s.recvFe.2.route.sendFe.2.fe.log = s.fe.log ++ contents s.forwarded
  /-- The cache is in order. -/
  cached : s.recvFe.2.route.sendFe.2.fe.Cached
  /-- When it returns `0`, it has sent the current message. -/
  whole : s.recvFe.2.route.sendFe.1 = 0 →
    5 ≤ s.recvFe.2.fe.available ∧
      contents s.forwarded = (PgRouter.Wire.pending s.fe s.kernel).take (size s.recvFe.2.fe)

theorem Steady.forwarded {s : Session} (hs : s.Steady) (recv : 0 ≤ s.recvFe.1) : s.Forwarded := by
  obtain ⟨he, hk, -⟩ := pgrMbufRecv_spec hs.sound.fe s.kernel rfl
  -- `route` sets the output descriptor, and all else is as it was received
  obtain ⟨fd, hroute⟩ : ∃ fd, s.recvFe.2.route.fe = { s.recvFe.2.fe with outfd := fd } := by
    rw [route_fe]
    split
    · exact ⟨_, rfl⟩
    · exact ⟨s.recvFe.2.fe.outfd, rfl⟩
  have hwf : Mbuf.Wf { s.recvFe.2.fe with outfd := fd } := ⟨he.wf.1, he.wf.2⟩
  have hcache : Mbuf.Cached { s.recvFe.2.fe with outfd := fd } := hk.cached hs.cached
  have hpending : PgRouter.Wire.pending { s.recvFe.2.fe with outfd := fd } s.recvFe.2.kernel =
      PgRouter.Wire.pending s.fe s.kernel := he.pending
  have hlog : Mbuf.log { s.recvFe.2.fe with outfd := fd } = s.fe.log := hk.log
  have hwrites : s.recvFe.2.kernel.WritesAll := he.follows.writesAll hs.writes
  rcases hsend : pgrMbufSend { s.recvFe.2.fe with outfd := fd } s.recvFe.2.kernel with ⟨rc, m, k⟩
  have hresult : s.recvFe.2.route.sendFe = s.recvFe.2.route.withFe (rc, m, k) := by
    rw [sendFe, route_kernel, hroute, hsend]
  have hforwarded : s.forwarded = newlySent s.recvFe.2.kernel k := by
    rw [Session.forwarded, if_neg (not_lt.mpr recv), hresult]
    rfl
  by_cases hav : 5 ≤ s.recvFe.2.fe.available
  · obtain ⟨w, hsent, -, hrc⟩ := pgrMbufSend_spec hwf hcache hav hwrites hsend
    obtain rfl : contents s.forwarded = w := by rw [hforwarded, newlySent_eq hsent.sent, contents_map]
    refine ⟨?_, ?_, ?_, fun h0 => ⟨hav, ?_⟩⟩
    · rw [hresult, ← hpending]
      exact hsent.pending
    · rw [hresult, ← hlog]
      exact hsent.log
    · rw [hresult]
      exact hsent.cached
    · rw [hresult] at h0
      rw [← hpending]
      exact (hrc.resolve_right fun hno => hno.1 h0).2
  · have hlt : Mbuf.available { s.recvFe.2.fe with outfd := fd } < 5 := not_le.mp hav
    rw [pgrMbufSend_short hlt] at hsend
    cases hsend
    have hnil : contents s.forwarded = [] := by rw [hforwarded, newlySent_self, contents_nil]
    refine ⟨?_, ?_, ?_, fun h0 => ?_⟩
    · rw [hnil, hresult]
      exact hpending
    · rw [hnil, hresult, List.append_nil]
      exact hlog
    · rw [hresult]
      exact hcache
    · rw [hresult] at h0
      exact absurd h0 one_ne_zero

/-- A Query or a Sync that is sent has octets. -/
theorem Forwarded.ne_nil {s : Session} (h : s.Forwarded) (hs : s.Sound) (send : s.recvFe.2.route.sendFe.1 = 0)
    (type : pgrMbufMsgtype s.recvFe.2.fe = chr 'Q' ∨ pgrMbufMsgtype s.recvFe.2.fe = chr 'S') :
    contents s.forwarded ≠ [] := by
  obtain ⟨hav, hw⟩ := h.whole send
  have h0 : s.recvFe.2.fe.buf s.recvFe.2.fe.start ≠ 0 := by
    rcases type with type | type
    · exact ne_zero_of_msgtype type (by decide)
    · exact ne_zero_of_msgtype type (by decide)
  have hsize := size_pos hav h0
  have hlen : s.recvFe.2.fe.available ≤ (PgRouter.Wire.pending s.fe s.kernel).length := by
    obtain ⟨he, -, -⟩ := pgrMbufRecv_spec hs.fe s.kernel rfl
    rw [← he.pending, List.nil_append]
    exact available_le_pending _ _
  rw [hw]
  intro hnil
  have := congrArg List.length hnil
  rw [List.length_take, List.length_nil] at this
  omega

/-- What `pgr_mbuf_relay` copies to a backend goes from the pending stream of the client. -/
theorem Steady.copied {s : Session} (hs : s.Steady) (recv : 0 ≤ s.recvFe.1) :
    contents s.copied ++ PgRouter.Wire.pending s.recvFe.2.relayFe.2.fe s.recvFe.2.relayFe.2.kernel =
      PgRouter.Wire.pending s.fe s.kernel := by
  obtain ⟨he, -, -⟩ := pgrMbufRecv_spec hs.sound.fe s.kernel rfl
  have hpending : PgRouter.Wire.pending s.recvFe.2.fe s.recvFe.2.kernel = PgRouter.Wire.pending s.fe s.kernel :=
    he.pending
  rw [Session.copied, if_neg (not_lt.mpr recv), ← hpending]
  by_cases hav : 5 ≤ s.recvFe.2.fe.available
  · obtain ⟨u, w, hr, -, -, -, -, -, -, hw⟩ := pgrMbufRelay_spec he.wf hav (k := s.recvFe.2.kernel) rfl
    obtain rfl := hw (he.follows.writesAll hs.writes)
    have hcopied : contents (newlySent s.recvFe.2.kernel s.recvFe.2.relayFe.2.kernel) = w :=
      (congrArg contents (newlySent_eq hr.sent)).trans (contents_map _ _)
    exact (congrArg (· ++ _) hcopied).trans hr.pending
  · have hshort : s.recvFe.2.relayFe = s.recvFe.2.withFe (1, s.recvFe.2.fe, s.recvFe.2.kernel) := by
      rw [relayFe, pgrMbufRelay_short (by omega)]
    have hnil : contents (newlySent s.recvFe.2.kernel s.recvFe.2.kernel) = [] := congrArg contents (newlySent_self _)
    rw [hshort]
    exact congrArg (· ++ _) hnil

/-- What is relayed is the beginning of what goes from the buffer. -/
theorem relayed_effect {s : Session} (hs : s.Sound) (recv : 0 ≤ s.recvBe.1)
    (error : ¬ (pgrMbufIserror s.recvBe.2.be (some BAD_ROUTING) = 0 ∧ s.befd = s.fds.reader)) :
    ∃ u, Effect s.recvBe.2.be s.recvBe.2.kernel u (contents s.relayed) s.recvBe.2.relayBe.2.be
      s.recvBe.2.relayBe.2.kernel ∧ contents s.relayed <+: u := by
  have hwf := hs.recvBe.be
  have hrelayed : s.relayed = newlySent s.recvBe.2.kernel s.recvBe.2.relayBe.2.kernel :=
    if_neg (not_or.mpr ⟨not_lt.mpr recv, error⟩)
  rcases hres : pgrMbufRelay s.recvBe.2.be s.recvBe.2.kernel with ⟨rc, m, k⟩
  have hresult : s.recvBe.2.relayBe = s.recvBe.2.withBe (rc, m, k) := by rw [relayBe, hres]
  rw [hrelayed, hresult]
  by_cases hav : 5 ≤ s.recvBe.2.be.available
  · obtain ⟨u, w, he, -, hw, -⟩ := pgrMbufRelay_spec hwf hav hres
    have hcontents : contents (newlySent s.recvBe.2.kernel (s.recvBe.2.withBe (rc, m, k)).2.kernel) = w :=
      (congrArg contents (newlySent_eq he.sent)).trans (contents_map _ _)
    rw [hcontents]
    exact ⟨u, he, hw⟩
  · rw [pgrMbufRelay_short (by omega)] at hres
    cases hres
    have hnil : contents (newlySent s.recvBe.2.kernel
        (s.recvBe.2.withBe (1, s.recvBe.2.be, s.recvBe.2.kernel)).2.kernel) = [] := congrArg contents (newlySent_self _)
    rw [hnil]
    exact ⟨[], Effect.refl hwf _, List.prefix_rfl⟩

/-- Every round keeps a session steady. -/
theorem Round.steady {s s' : Session} (h : Round s s') (hs : s.Steady) : s'.Steady := by
  refine ⟨(h.sound hs.sound).1, ?_, (h.follows hs.sound).writesAll hs.writes⟩
  obtain ⟨he, hk, -⟩ := pgrMbufRecv_spec hs.sound.fe s.kernel rfl
  have hrelay := hk.trans (pgrMbufRelay_kept he.wf s.recvFe.2.kernel)
  cases h with
  | next =>
    rw [loopHead_eq]
    exact hs.cached
  | feFailed | copyFailed => exact hk.cached hs.cached
  | feRefused pc recv | closed pc recv | feMore pc recv | feLast pc recv => exact (hs.forwarded recv).cached
  | beFailed | badRouting | beRefused | replied | draining | drained | halted => exact hs.cached
  | redirected => exact cached_of_none rfl
  | copyRefused | copied => exact hrelay.cached hs.cached

/-! ### What is waiting -/

/-- What a backend has still to say: what is in `be`, if it is read from there, and what is
still to be read. -/
def waiting (s : Session) (fd : Fd) : List Octet :=
  (if s.be.infd = fd then s.be.window else []) ++ s.kernel.unread fd

/-- The backend that the next request goes to. -/
def nextBackend (s : Session) : Fd := if s.inTxn then s.befd else s.fds.reader

theorem waiting_infd (s : Session) : s.waiting s.be.infd = pending s.be s.kernel :=
  congrArg (· ++ _) (if_pos rfl)

/-- What is done with the client changes nothing in what the backends have to say. -/
theorem waiting_congr {s s' : Session} (hbe : s'.be = s.be) {fd : Fd} (hk : s'.kernel.unread fd = s.kernel.unread fd) :
    s'.waiting fd = s.waiting fd := by
  rw [waiting, waiting, hbe, hk]

/-- What has gone from the buffer is the first of what the backend had to say. -/
theorem waiting_effect {s s' : Session} {u w : List Octet} (h : Effect s.be s.kernel u w s'.be s'.kernel) :
    u ++ s'.waiting s.be.infd = s.waiting s.be.infd ∧ ∀ fd ≠ s.be.infd, s'.waiting fd = s.waiting fd := by
  refine ⟨?_, fun fd hfd => ?_⟩
  · rw [waiting_infd, ← h.pending, ← h.infd, waiting_infd]
  · rw [waiting, waiting, h.infd, h.other fd hfd, if_neg hfd.symm, if_neg hfd.symm]

/-- Turning to another backend changes nothing in what they have to say if the buffer is empty. -/
theorem waiting_setBackend (s : Session) {fd : Fd} (hfd : 0 ≤ fd) (hempty : s.be.infd ≠ fd → s.be.window = []) :
    ({ s with befd := fd }.setBackend).waiting = s.waiting := by
  have hin : ({ s with befd := fd }.setBackend).be.infd = fd := if_pos (ne_same_fd hfd)
  have hwin : ({ s with befd := fd }.setBackend).be.window = s.be.window := rfl
  have hk : ({ s with befd := fd }.setBackend).kernel = s.kernel := rfl
  funext fd'
  rw [waiting, waiting, hin, hwin, hk]
  by_cases hsame : s.be.infd = fd
  · rw [hsame]
  · rw [hempty hsame, ite_self, ite_self]

/-- Receiving a message changes nothing in what the backends have to say. -/
theorem waiting_recvBe {s : Session} (hs : s.Sound) : s.recvBe.2.waiting = s.waiting := by
  obtain ⟨he, -, -⟩ := pgrMbufRecv_spec hs.be s.kernel rfl
  have he : Effect s.be s.kernel [] [] s.recvBe.2.be s.recvBe.2.kernel := he
  obtain ⟨hin, hother⟩ := waiting_effect he
  funext fd
  by_cases hfd : fd = s.be.infd
  · rw [hfd]
    exact hin
  · exact hother fd hfd

/-- The client is not a backend, so reading from it changes nothing in what the backends have
to say. -/
theorem waiting_frontend {s s' : Session} (hbe : s'.be = s.be)
    (hk : ∀ fd ≠ s.fds.frontend, s'.kernel.unread fd = s.kernel.unread fd) :
    s'.waiting s.fds.reader = s.waiting s.fds.reader ∧ s'.waiting s.fds.writer = s.waiting s.fds.writer :=
  ⟨waiting_congr hbe (hk _ s.fds.frontend_ne_reader.symm), waiting_congr hbe (hk _ s.fds.frontend_ne_writer.symm)⟩

end Session

end PgRouter.Worker
