import PgRouter.Worker.Flow
import PgRouter.Worker.Routing

/-!
# Segmentation

How the network divides the streams of the client and the backends among the `read` calls
should not matter. A session that meets `Unsplit` does what the session on streams does
(`Round.flow`), and this is the same for all ways to divide the same streams. So two
sessions that meet it agree (`segmentation`).

`Unsplit` says of which parts of a stream a session needs more than five octets in the
buffer, and of which nothing may be there. Where it fails, the session depends on how the
streams are divided: a transaction is not recognised, or a refusal; what has been read is
lost when a request is redirected, or taken for the reply of the other backend; or the
buffer runs full.
-/

namespace PgRouter.Worker

open Foundation Wire

namespace Session

/-- The streams are not divided where it matters. -/
structure Unsplit (s : Session) : Prop where
  /-- There is room in `fe` for the next five octets. -/
  room : s.pc = .feRecv ∨ s.pc = .copyRecv → Room s.fe s.kernel
  /-- What is compared of a Query is in the buffer. -/
  query : s.pc = .feRecv → Shown s.recvFe.2.fe
  /-- An ErrorResponse of the reader is whole in the buffer. -/
  error : s.pc = .beRecv → s.befd = s.fds.reader → pgrMbufMsgtype s.recvBe.2.be = chr 'E' →
    5 ≤ s.recvBe.2.be.available → size s.recvBe.2.be ≤ s.recvBe.2.be.available
  /-- `be` is empty when the next request goes to another backend. -/
  turns : s.pc = .loopHead → s.be.infd ≠ s.nextBackend → s.be.window = []
  /-- Both buffers are empty when a request is redirected. -/
  redirects : s.pc = .redirect → s.fe.window = [] ∧ s.be.window = []

instance (s : Session) : Decidable s.Unsplit :=
  decidable_of_iff
    ((s.pc = .feRecv ∨ s.pc = .copyRecv → Room s.fe s.kernel) ∧ (s.pc = .feRecv → Shown s.recvFe.2.fe) ∧
      (s.pc = .beRecv → s.befd = s.fds.reader → pgrMbufMsgtype s.recvBe.2.be = chr 'E' →
        5 ≤ s.recvBe.2.be.available → size s.recvBe.2.be ≤ s.recvBe.2.be.available) ∧
      (s.pc = .loopHead → s.be.infd ≠ s.nextBackend → s.be.window = []) ∧
      (s.pc = .redirect → s.fe.window = [] ∧ s.be.window = []))
    ⟨fun ⟨hm, hq, he, ht, hr⟩ => ⟨hm, hq, he, ht, hr⟩, fun ⟨hm, hq, he, ht, hr⟩ => ⟨hm, hq, he, ht, hr⟩⟩

/-- What every round keeps, where no call fails and the backends send messages. -/
structure Fit (s : Session) : Prop where
  /-- The session is steady. -/
  steady : s.Steady
  /-- No `read` fails. -/
  reads : s.kernel.ReadsOk
  /-- The disk does not fail. -/
  disk : s.kernel.DiskOk
  /-- `be` keeps nothing. -/
  idle : Kept (pgrMbufNew 4096) s.be
  /-- The session is wired. -/
  wired : ∃ opened, s.Wired opened
  /-- A reply is read from a backend. -/
  source : s.pc ≠ .loopHead → s.be.infd = s.fds.reader ∨ s.be.infd = s.fds.writer
  /-- The reader has messages to say. -/
  reader : s.pc ≠ .shutdown → Legible Message.WellFormed (s.waiting s.fds.reader)
  /-- The writer has messages to say. -/
  writer : s.pc ≠ .shutdown → Legible Message.WellFormed (s.waiting s.fds.writer)
  /-- While a reply is drained, the next message is seen. -/
  seen : s.pc = .drain → Seen s.be s.kernel

theorem Fit.feReady {s : Session} (h : s.Fit) : Ready s.fe s.kernel :=
  ⟨h.steady.sound.fe, h.steady.cached, h.steady.writes, h.reads, h.disk⟩

theorem Fit.beReady {s : Session} (h : s.Fit) : Ready s.be s.kernel :=
  ⟨h.steady.sound.be, cached_of_none h.idle.cache, h.steady.writes, h.reads, h.disk⟩

theorem Fit.txn {s : Session} (h : s.Fit) : s.inTxn = true → s.befd = s.fds.writer := by
  obtain ⟨opened, hw⟩ := h.wired
  exact hw.txn

/-- There is always room in `be`. -/
theorem Fit.beRoom {s : Session} (h : s.Fit) : s.be.start + 5 ≤ s.be.len := by
  have hstart : s.be.start = 0 := h.idle.start
  rw [hstart, h.steady.sound.beLen]
  decide

/-- A reply is a sequence of messages. -/
theorem Fit.legible {s : Session} (h : s.Fit) (hhead : s.pc ≠ .loopHead) (hend : s.pc ≠ .shutdown) :
    Legible Message.WellFormed (pending s.be s.kernel) := by
  rw [← waiting_infd]
  rcases h.source hhead with hin | hin <;> rw [hin]
  · exact h.reader hend
  · exact h.writer hend

/-! ### A step of the session is a step on streams -/

/-- A message of the request. -/
theorem Fit.feRecv {s : Session} (h : s.Fit) (hu : s.Unsplit) (pc : s.pc = .feRecv) :
    s.recvFe.2.route.sendFe.2.flow = s.flow.route.sendCurrent ∧
      (s.recvFe.2.route.sendFe.1 = 0 ↔ 5 ≤ s.flow.client.length) ∧ 0 ≤ s.recvFe.1 ∧
      ∀ c : Char, 3 < c.toNat → c.toNat < 128 → (pgrMbufMsgtype s.recvFe.2.fe = chr c ↔ IsType c s.flow.client) := by
  have hs := h.steady.sound
  obtain ⟨hrc, hseen⟩ := h.feReady.recv_seen (hu.room (.inl pc))
  have hseen : Seen s.recvFe.2.fe s.recvFe.2.kernel := hseen
  obtain ⟨he, hk, -⟩ := pgrMbufRecv_spec hs.fe s.kernel rfl
  have hready : Ready s.recvFe.2.fe s.recvFe.2.kernel := h.feReady.after he (hk.cached h.feReady.cached)
  have hflow := hs.recvFe_flow
  have hroute : s.recvFe.2.route.flow = s.flow.route := by
    rw [route_flow hready.wf hseen (hu.query pc), hflow]
  -- `route` touches nothing but the output descriptor
  have hrouted : Ready s.recvFe.2.route.fe s.recvFe.2.route.kernel ∧
    Seen s.recvFe.2.route.fe s.recvFe.2.route.kernel := by
    rw [route_kernel, route_fe]
    split
    · exact ⟨hready.setfd _, hseen⟩
    · exact ⟨hready, hseen⟩
  obtain ⟨hsent, hzero⟩ := hs.recvFe.route.sendFe_flow hrouted.1 hrouted.2
  have hclient : s.flow.route.client = s.flow.client := by
    unfold Flow.route
    simp only
    split_ifs <;> rfl
  rw [hroute, hclient] at hzero
  rw [hroute] at hsent
  refine ⟨hsent, hzero, hrc, fun c hlo hhi => ?_⟩
  rw [hseen.msgtype_iff hready.wf hlo hhi]
  exact iff_of_eq (congrArg (fun f : Flow => IsType c f.client) hflow)

/-- A message of the COPY DATA sub-protocol. -/
theorem Fit.copyRecv {s : Session} (h : s.Fit) (hu : s.Unsplit) (pc : s.pc = .copyRecv) :
    s.recvFe.2.relayFe.2.flow = s.flow.copyCurrent ∧ (s.recvFe.2.relayFe.1 = 0 ↔ IsWhole s.flow.client) ∧
      0 ≤ s.recvFe.1 ∧
      ∀ c : Char, 3 < c.toNat → c.toNat < 128 → (pgrMbufMsgtype s.recvFe.2.fe = chr c ↔ IsType c s.flow.client) := by
  have hs := h.steady.sound
  obtain ⟨hrc, hseen⟩ := h.feReady.recv_seen (hu.room (.inr pc))
  have hseen : Seen s.recvFe.2.fe s.recvFe.2.kernel := hseen
  obtain ⟨he, hk, -⟩ := pgrMbufRecv_spec hs.fe s.kernel rfl
  have hready : Ready s.recvFe.2.fe s.recvFe.2.kernel := h.feReady.after he (hk.cached h.feReady.cached)
  have hflow := hs.recvFe_flow
  obtain ⟨hrelay, hzero⟩ := hs.recvFe.relayFe_flow hready hseen
  rw [hflow] at hrelay hzero
  refine ⟨hrelay, hzero, hrc, fun c hlo hhi => ?_⟩
  rw [hseen.msgtype_iff hready.wf hlo hhi]
  exact iff_of_eq (congrArg (fun f : Flow => IsType c f.client) hflow)

/-- A message of the reply. -/
theorem Fit.beRecv {s : Session} (h : s.Fit) (hu : s.Unsplit) (pc : s.pc = .beRecv) :
    s.recvBe.2.relayBe.2.flow = s.flow.relayCurrent ∧ (s.recvBe.2.relayBe.1 = 0 ↔ IsWhole s.flow.reply) ∧
      0 ≤ s.recvBe.1 ∧
      (∀ c : Char, 3 < c.toNat → c.toNat < 128 → (pgrMbufMsgtype s.recvBe.2.be = chr c ↔ IsType c s.flow.reply)) ∧
      (pgrMbufIserror s.recvBe.2.be (some BAD_ROUTING) = 0 ∧ s.befd = s.fds.reader ↔
        HasCode BAD_ROUTING s.flow.reply ∧ s.befd = s.fds.reader) := by
  have hs := h.steady.sound
  obtain ⟨hrc, hseen⟩ := h.beReady.recv_seen (.inr (.inl h.beRoom))
  have hseen : Seen s.recvBe.2.be s.recvBe.2.kernel := hseen
  obtain ⟨he, hk, -⟩ := pgrMbufRecv_spec hs.be s.kernel rfl
  have hready : Ready s.recvBe.2.be s.recvBe.2.kernel := h.beReady.after he (hk.cached h.beReady.cached)
  have hflow := hs.recvBe_flow
  have hreply : pending s.recvBe.2.be s.recvBe.2.kernel = s.flow.reply := by rw [← hs.recvBe.reply, hflow]
  obtain ⟨hrelay, hzero⟩ := hs.recvBe.relayBe_flow hready hseen
  rw [hflow] at hrelay hzero
  refine ⟨hrelay, hzero, hrc, fun c hlo hhi => ?_, ?_⟩
  · rw [hseen.msgtype_iff hready.wf hlo hhi, hreply]
  · rw [and_congr_left_iff]
    intro hreader
    have hlegible := h.legible (by rw [pc]; nofun) (by rw [pc]; nofun)
    rw [← hs.reply, ← hreply] at hlegible
    rw [← hreply]
    exact hseen.iserror_eq_zero_iff hready.wf hlegible (hu.error pc hreader) rfl (by decide +kernel)

/-- The head of the outer loop. -/
theorem Fit.loopHead_flow {s : Session} (h : s.Fit) (hu : s.Unsplit) (pc : s.pc = .loopHead) :
    s.loopHead.flow = s.flow.loopHead := by
  have hnonneg : 0 ≤ s.nextBackend := by
    rw [nextBackend]
    split
    · exact h.txn ‹_› ▸ s.fds.writer_nonneg
    · exact s.fds.reader_nonneg
  have hne := ne_same_fd hnonneg
  have hwait := s.waiting_setBackend hnonneg (hu.turns pc)
  rw [loopHead_eq]
  refine Flow.ext rfl rfl rfl rfl (if_pos hne) (if_pos hne) rfl (funext fun fd => ?_) rfl rfl
  show (if fd = s.fds.frontend then [] else _) = (if fd = s.fds.frontend then [] else _)
  split
  · rfl
  · exact congrFun hwait fd

theorem terminate_flow {s : Session} (hw : s.kernel.WritesAll) : s.terminate.flow = s.flow.terminate := by
  obtain ⟨-, hall, hwrote⟩ := writeLoop_spec s.kernel s.fds.reader TERMINATE
  rw [hall.mp (writeLoop_of_writesAll hw _ _)] at hwrote
  obtain ⟨-, hall', hwrote'⟩ :=
    writeLoop_spec (writeLoop s.kernel s.fds.reader TERMINATE).2.2 s.fds.writer TERMINATE
  rw [hall'.mp (writeLoop_of_writesAll (hwrote.follows.writesAll hw) _ _)] at hwrote'
  have hunread := hwrote'.unread.trans hwrote.unread
  have hsent := hwrote'.sent
  rw [hwrote.sent] at hsent
  refine Flow.ext rfl rfl rfl rfl rfl rfl ?_ (funext fun fd => ?_) rfl hsent
  · exact congrArg (_ ++ ·) (congrFun hunread _)
  · show (if fd = s.fds.frontend then [] else _) = (if fd = s.fds.frontend then [] else _)
    split
    · rfl
    · exact congrArg (_ ++ ·) (congrFun hunread _)

theorem Fit.feRecv_flow {s : Session} (h : s.Fit) (hu : s.Unsplit) (pc : s.pc = .feRecv) :
    s.feRecv.flow = s.flow.feRecv := by
  obtain ⟨hsent, hzero, hrc, htype⟩ := h.feRecv hu pc
  have hwrites := h.steady.sound.sendFe_follows.writesAll h.steady.writes
  unfold Session.feRecv Flow.feRecv
  simp only
  rw [if_neg (not_lt.mpr hrc), ← hsent]
  by_cases hlen : 5 ≤ s.flow.client.length
  · rw [if_neg (not_not.mpr (hzero.mpr hlen)), if_neg (not_lt.mpr hlen)]
    simp only [ne_eq, htype 'X' (by decide) (by decide), htype 'Q' (by decide) (by decide),
      htype 'S' (by decide) (by decide)]
    split_ifs
    · exact terminate_flow hwrites
    · rfl
    · rfl
  · rw [if_pos (mt hzero.mp hlen), if_pos (not_le.mp hlen)]
    rfl

theorem Fit.copyRecv_flow {s : Session} (h : s.Fit) (hu : s.Unsplit) (pc : s.pc = .copyRecv) :
    s.copyRecv.flow = s.flow.copyRecv := by
  obtain ⟨hsent, hzero, hrc, htype⟩ := h.copyRecv hu pc
  unfold Session.copyRecv Flow.copyRecv
  simp only
  rw [if_neg (not_lt.mpr hrc), ← hsent]
  simp only [ne_eq, hzero, htype 'c' (by decide) (by decide), htype 'F' (by decide) (by decide)]
  split_ifs <;> rfl

theorem Fit.beRecv_flow {s : Session} (h : s.Fit) (hu : s.Unsplit) (pc : s.pc = .beRecv) :
    s.beRecv.flow = s.flow.beRecv := by
  obtain ⟨hsent, hzero, hrc, htype, herror⟩ := h.beRecv hu pc
  have herror : pgrMbufIserror s.recvBe.2.be (some BAD_ROUTING) = 0 ∧ s.recvBe.2.befd = s.recvBe.2.fds.reader ↔
      HasCode BAD_ROUTING s.flow.reply ∧ s.flow.befd = s.flow.fds.reader := herror
  have hrecv := h.steady.sound.recvBe_flow
  unfold Session.beRecv Flow.beRecv
  simp only
  rw [if_neg (not_lt.mpr hrc), ← hsent]
  by_cases hc : HasCode BAD_ROUTING s.flow.reply ∧ s.flow.befd = s.flow.fds.reader
  · rw [if_pos (herror.mpr hc), if_pos hc, ← hrecv]
    rfl
  · rw [if_neg (mt herror.mp hc), if_neg hc]
    simp only [ne_eq, hzero, htype 'G' (by decide) (by decide), htype 'Z' (by decide) (by decide)]
    split_ifs <;> rfl

/-- A round of `pgr_mbuf_drain`. -/
theorem Fit.drain_flow {s : Session} (h : s.Fit) (pc : s.pc = .drain) : s.drain.flow = s.flow.drain := by
  have hs := h.steady.sound
  have hseen := h.seen pc
  have hreply := hs.reply
  have hneg := hseen.msgtype_neg_iff (fun _ h => h.toPlain) hs.be (h.legible (by rw [pc]; nofun) (by rw [pc]; nofun))
  have htype := hseen.msgtype_iff hs.be (c := 'Z') (by decide) (by decide)
  rw [← hreply] at hneg htype
  -- what is left when the message has been discarded, and the next one received
  rcases hd : pgrMbufDiscard s.be s.kernel with ⟨rc, m, k⟩
  have he := h.beReady.discard hseen
  rw [hd] at he
  have hdrop : (s.withBe (rc, m, k)).2.flow = s.flow.dropCurrent := by
    rw [hs.withBe_flow (r := (rc, m, k)) he, he.beyond, ← hreply, List.map_nil, List.append_nil]
    rfl
  have hrecv := (hs.withBe (r := (rc, m, k)) he.safe).recvBe_flow
  unfold Session.drain drainRound Flow.drain
  simp only [hd]
  by_cases hnil : s.flow.reply = []
  · rw [if_pos hnil, if_pos (hneg.mpr hnil)]
    rfl
  · rw [if_neg hnil, if_neg (mt hneg.mp hnil), ← hdrop]
    by_cases hz : IsType 'Z' s.flow.reply
    · rw [if_pos hz, if_pos (htype.mpr hz)]
      rfl
    · rw [if_neg hz, if_neg (mt htype.mp hz)]
      exact hrecv

theorem Fit.redirect_flow {s : Session} (h : s.Fit) (hu : s.Unsplit) (pc : s.pc = .redirect) :
    s.redirect.flow = s.flow.redirect := by
  obtain ⟨hfe, hbe⟩ := hu.redirects pc
  have hset := h.steady.sound.setBackend s.fds.frontend_ne_writer.symm
  rcases hres : pgrMbufResend ({ s with befd := s.fds.writer }.setBackend).fe s.kernel with ⟨rc, m, k⟩
  obtain ⟨-, rfl, he⟩ := pgrMbufResend_spec hset.fe h.feReady.cached h.disk h.steady.writes hres
  have hout : ({ s with befd := s.fds.writer }.setBackend).fe.outfd = s.fds.writer :=
    if_pos (ne_same_fd s.fds.writer_nonneg)
  have hwait := s.waiting_setBackend s.fds.writer_nonneg fun _ => hbe
  have hredirect : s.redirect = { { s with befd := s.fds.writer }.setBackend with
      pc := .beRecv
      fe := pgrMbufReset ({ s with befd := s.fds.writer }.setBackend).fe
      kernel := k } := by
    unfold Session.redirect
    simp only [show ({ s with befd := s.fds.writer }.setBackend).kernel = s.kernel from rfl, hres]
    rfl
  have hunread : k.unread = s.kernel.unread := by
    obtain ⟨-, w, hwrote⟩ := pgrMbufResend_safe hset.fe s.kernel
    rw [hres] at hwrote
    exact hwrote.unread
  have hsent := he.sent
  rw [hout] at hsent
  rw [hredirect]
  refine Flow.ext rfl rfl rfl rfl hout (if_pos (ne_same_fd s.fds.writer_nonneg)) ?_ (funext fun fd => ?_)
    (pgrMbufReset_fresh _).log hsent
  · show slice _ 0 0 ++ k.unread _ = s.fe.window ++ s.kernel.unread _
    rw [slice_self, hfe, hunread]
    rfl
  · show (if fd = s.fds.frontend then [] else _) = (if fd = s.fds.frontend then [] else _)
    split
    · rfl
    · rw [← hwait]
      exact congrArg (_ ++ ·) (congrFun hunread fd)

/-- **A step of the session is a step on streams.** -/
theorem Fit.step_flow {s : Session} (h : s.Fit) (hu : s.Unsplit) : s.step.flow = s.flow.step := by
  unfold step Flow.step
  rw [show s.flow.pc = s.pc from rfl]
  cases pc : s.pc with
  | loopHead => exact h.loopHead_flow hu pc
  | feRecv => exact h.feRecv_flow hu pc
  | beRecv => exact h.beRecv_flow hu pc
  | drain => exact h.drain_flow pc
  | redirect => exact h.redirect_flow hu pc
  | copyRecv => exact h.copyRecv_flow hu pc
  | shutdown => rfl

/-! ### Every round keeps the session fit -/

/-- What is left to show of a round. -/
theorem Fit.kept {s s' : Session} (h : s.Fit) (hround : Round s s') (hk : Kept s.be s'.be)
    (hsource : s'.pc ≠ .loopHead → s'.be.infd = s.fds.reader ∨ s'.be.infd = s.fds.writer)
    (hlegible : s'.pc ≠ .shutdown → ∀ fd, fd = s.fds.reader ∨ fd = s.fds.writer →
      Legible Message.WellFormed (s'.waiting fd))
    (hseen : s'.pc = .drain → Seen s'.be s'.kernel) : s'.Fit := by
  obtain ⟨opened, hw⟩ := h.wired
  obtain ⟨-, hfds⟩ := hround.sound h.steady.sound
  have hf := hround.follows h.steady.sound
  refine ⟨hround.steady h.steady, hf.readsOk h.reads, hf.diskOk h.disk, h.idle.trans hk, ⟨_, hround.wired hw⟩, ?_, ?_,
    ?_, hseen⟩
  · rw [hfds]
    exact hsource
  · rw [hfds]
    exact fun hpc => hlegible hpc _ (.inl rfl)
  · rw [hfds]
    exact fun hpc => hlegible hpc _ (.inr rfl)

/-- What a backend has to say is a sequence of messages. -/
theorem Fit.backend {s : Session} (h : s.Fit) (hpc : s.pc ≠ .shutdown) {fd : Fd}
    (hfd : fd = s.fds.reader ∨ fd = s.fds.writer) : Legible Message.WellFormed (s.waiting fd) := by
  rcases hfd with rfl | rfl
  · exact h.reader hpc
  · exact h.writer hpc

/-- A round that is about the client. -/
theorem Fit.frontend {s s' : Session} (h : s.Fit) (hround : Round s s') (hbe : s'.be = s.be)
    (hk : ∀ fd ≠ s.fds.frontend, s'.kernel.unread fd = s.kernel.unread fd) (hhead : s.pc ≠ .loopHead)
    (hend : s.pc ≠ .shutdown) (hpc : s'.pc ≠ .drain) : s'.Fit := by
  refine h.kept hround (hbe ▸ .refl _) (fun _ => hbe ▸ h.source hhead) (fun _ fd hfd => ?_) fun h => absurd h hpc
  obtain ⟨hr, hw⟩ := waiting_frontend hbe hk
  have hsame : s'.waiting fd = s.waiting fd := by
    rcases hfd with rfl | rfl
    · exact hr
    · exact hw
  rw [hsame]
  exact h.backend hend hfd

/-- A round that is about a backend: `u` has gone from its stream. -/
theorem Fit.heard {s s' : Session} (h : s.Fit) (hround : Round s s') {u w : List Octet}
    (he : Effect s.be s.kernel u w s'.be s'.kernel) (hk : Kept s.be s'.be) (hhead : s.pc ≠ .loopHead)
    (hend : s.pc ≠ .shutdown) (hrest : s'.pc ≠ .shutdown → Legible Message.WellFormed (pending s'.be s'.kernel))
    (hseen : s'.pc = .drain → Seen s'.be s'.kernel) : s'.Fit := by
  refine h.kept hround hk (fun _ => he.infd ▸ h.source hhead) (fun hpc fd hfd => ?_) hseen
  by_cases hin : fd = s.be.infd
  · rw [hin, ← he.infd, waiting_infd]
    exact hrest hpc
  · rw [(waiting_effect he).2 fd hin]
    exact h.backend hend hfd

/-- Turning to another backend. -/
theorem Fit.turned {s s' : Session} (h : s.Fit) (hround : Round s s') {fd : Fd}
    (hfd : fd = s.fds.reader ∨ fd = s.fds.writer) (hempty : s.be.infd ≠ fd → s.be.window = [])
    (hbe : s'.be = ({ s with befd := fd }.setBackend).be) (hk : s'.kernel.unread = s.kernel.unread)
    (hend : s.pc ≠ .shutdown) (hpc : s'.pc ≠ .drain) : s'.Fit := by
  have hnonneg : 0 ≤ fd := by
    rcases hfd with rfl | rfl
    · exact s.fds.reader_nonneg
    · exact s.fds.writer_nonneg
  have hin : s'.be.infd = fd := by
    rw [hbe]
    exact if_pos (ne_same_fd hnonneg)
  refine h.kept hround (hbe ▸ ⟨rfl, rfl, rfl⟩) (fun _ => hin.symm ▸ hfd) (fun _ fd' hfd' => ?_) fun h => absurd h hpc
  have hsame : s'.waiting fd' = s.waiting fd' := by
    rw [← s.waiting_setBackend hnonneg hempty]
    exact waiting_congr hbe (congrFun hk fd')
  rw [hsame]
  exact h.backend hend hfd'

/-- Every round keeps the session fit. -/
theorem Round.fit {s s' : Session} (hround : Round s s') (h : s.Fit) (hu : s.Unsplit) : s'.Fit := by
  have hs := h.steady.sound
  have hround' := hround
  have hclient := hround.client hs
  have hlegible := h.legible
  obtain ⟨he, hk, -⟩ := pgrMbufRecv_spec hs.be s.kernel rfl
  have hrecv := (h.beReady.recv_seen (.inr (.inl h.beRoom))).2
  have hreceived : pending s.recvBe.2.be s.recvBe.2.kernel = pending s.be s.kernel := he.pending
  cases hround with
  | next pc =>
    have hnext : s.nextBackend = s.fds.reader ∨ s.nextBackend = s.fds.writer := by
      rw [nextBackend]
      split
      · exact .inr (h.txn ‹_›)
      · exact .inl rfl
    rw [loopHead_eq] at hround' ⊢
    exact h.turned hround' hnext (hu.turns pc) rfl rfl (by rw [pc]; decide) fun h => by cases h
  | feFailed pc | feRefused pc | closed pc | feMore pc | feLast pc =>
    obtain ⟨hsame, hunread⟩ := hclient (.inl pc)
    exact h.frontend hround' hsame hunread (by rw [pc]; decide) (by rw [pc]; decide) fun h => by cases h
  | copyFailed pc | copyRefused pc =>
    obtain ⟨hsame, hunread⟩ := hclient (.inr pc)
    exact h.frontend hround' hsame hunread (by rw [pc]; decide) (by rw [pc]; decide) fun h => by cases h
  | copied pc' pc recv relay type =>
    obtain ⟨hsame, hunread⟩ := hclient (.inr pc)
    refine h.frontend hround' hsame hunread (by rw [pc]; decide) (by rw [pc]; decide) ?_
    rcases type with ⟨-, rfl⟩ | ⟨-, -, rfl⟩ <;> exact fun h => by cases h
  | beFailed pc =>
    exact h.heard hround' he hk (by rw [pc]; decide) (by rw [pc]; decide) (fun h => absurd rfl h) fun h => by cases h
  | badRouting pc =>
    refine h.heard hround' he hk (by rw [pc]; decide) (by rw [pc]; decide) (fun _ => ?_) fun _ => hrecv
    exact hreceived ▸ hlegible (by rw [pc]; decide) (by rw [pc]; decide)
  | beRefused pc recv error =>
    obtain ⟨u, he', -⟩ := relayed_effect hs recv error
    exact h.heard hround' (he.trans he') (hk.trans (pgrMbufRelay_kept he.wf _)) (by rw [pc]; decide)
      (by rw [pc]; decide)
      (fun h => absurd rfl h) fun h => by cases h
  | replied pc' pc recv error relay type =>
    have hl : Legible Message.WellFormed (pending s.recvBe.2.be s.recvBe.2.kernel) :=
      hreceived ▸ hlegible (by rw [pc]; decide) (by rw [pc]; decide)
    rcases hres : pgrMbufRelay s.recvBe.2.be s.recvBe.2.kernel with ⟨rc, m, k⟩
    have hresult : s.recvBe.2.relayBe = s.recvBe.2.withBe (rc, m, k) := by rw [relayBe, hres]
    rw [hresult] at relay hround' ⊢
    obtain rfl : rc = 0 := relay
    obtain ⟨msg, -, he', hrest⟩ := hl.relay (fun _ h => h.toPlain) hs.recvBe.be hres
    have hkept := pgrMbufRelay_kept hs.recvBe.be s.recvBe.2.kernel
    rw [hres] at hkept
    refine h.heard hround' (he.trans he') (hk.trans hkept) (by rw [pc]; decide) (by rw [pc]; decide) (fun _ => hrest) ?_
    rcases type with ⟨-, rfl⟩ | ⟨-, rfl⟩ | ⟨-, rfl⟩ <;> exact fun h => by cases h
  | draining pc round =>
    have hd := (hlegible (by rw [pc]; decide) (by rw [pc]; decide)).drainRound
      (fun _ h => h.toPlain) hs.be h.reads h.beRoom
      (h.seen pc)
    rw [round] at hd
    obtain ⟨u, hd, hseen, -⟩ := hd
    exact h.heard hround' hd.toEffect hd.toKept (by rw [pc]; decide) (by rw [pc]; decide) (fun _ => hd.legible)
      fun _ => hseen
  | drained pc round =>
    have hd := (hlegible (by rw [pc]; decide) (by rw [pc]; decide)).drainRound
      (fun _ h => h.toPlain) hs.be h.reads h.beRoom
      (h.seen pc)
    rw [round] at hd
    obtain ⟨u, hd, -⟩ := hd
    exact h.heard hround' hd.toEffect hd.toKept (by rw [pc]; decide) (by rw [pc]; decide) (fun _ => hd.legible)
      fun h => by cases h
  | redirected pc =>
    have hset := hs.setBackend s.fds.frontend_ne_writer.symm
    obtain ⟨-, w, hwrote⟩ := pgrMbufResend_safe hset.fe s.kernel
    exact h.turned hround' (.inr rfl) (fun _ => (hu.redirects pc).2) rfl hwrote.unread (by rw [pc]; decide)
      fun h => by cases h
  | halted pc => exact h

theorem start_fit (fds : Descriptors) {kernel : Kernel} (hw : kernel.WritesAll) (hr : kernel.ReadsOk)
    (hd : kernel.DiskOk) (hreader : Legible Message.WellFormed (kernel.unread fds.reader))
    (hwriter : Legible Message.WellFormed (kernel.unread fds.writer)) : (start fds kernel).Fit := by
  have hwait : (start fds kernel).waiting = kernel.unread := by
    funext fd
    rw [waiting]
    split <;> rfl
  refine ⟨start_steady fds hw, hr, hd, ⟨rfl, rfl, rfl⟩, ⟨false, start_wired fds kernel⟩, fun hpc => absurd rfl hpc,
    fun _ => ?_,
    fun _ => ?_, fun h => by cases h⟩
  · rw [hwait]
    exact hreader
  · rw [hwait]
    exact hwriter

/-- Two sessions have routed all messages alike. -/
structure Agrees (s t : Session) : Prop where
  /-- They are at the same place. -/
  pc : s.pc = t.pc
  /-- The request goes to the same backend. -/
  befd : s.befd = t.befd
  /-- A transaction is open in both or in none. -/
  inTxn : s.inTxn = t.inTxn
  /-- They have sent the same octets to the same places, in the same order. -/
  sent : s.kernel.sent = t.kernel.sent

end Session

/-- A run that is not split where it matters is a run on streams. -/
theorem run_flow {s : Session} (h : s.Fit) (n : ℕ) (hu : ∀ i < n, (Session.step^[i] s).Unsplit) :
    (Session.step^[n] s).flow = Flow.step^[n] s.flow := by
  have hboth : (Session.step^[n] s).Fit ∧ (Session.step^[n] s).flow = Flow.step^[n] s.flow := by
    refine lockstep_induction (R := fun s f => s.Fit ∧ s.flow = f) (H := fun _ => True) ?_ ⟨h, rfl⟩ n hu
      fun _ _ => trivial
    rintro s f ⟨hf, rfl⟩ hu -
    exact ⟨s.step_round.fit hf hu, hf.step_flow hu⟩
  exact hboth.2

/-- **Segmentation.** Two sessions whose kernels have the same streams to deliver, and divide
them differently, but not where it matters, have routed all messages alike after any number
of steps. -/
theorem segmentation (fds : Descriptors) {k k' : Kernel} (hunread : k'.unread = k.unread) (hsent : k'.sent = k.sent)
    (hw : k.WritesAll) (hw' : k'.WritesAll) (hr : k.ReadsOk) (hr' : k'.ReadsOk) (hd : k.DiskOk) (hd' : k'.DiskOk)
    (hreader : Legible Message.WellFormed (k.unread fds.reader))
    (hwriter : Legible Message.WellFormed (k.unread fds.writer)) (n : ℕ)
    (hu : ∀ i < n, (Session.step^[i] (Session.start fds k)).Unsplit)
    (hu' : ∀ i < n, (Session.step^[i] (Session.start fds k')).Unsplit) :
    (Session.step^[n] (Session.start fds k)).Agrees (Session.step^[n] (Session.start fds k')) := by
  have hfit := Session.start_fit fds hw hr hd hreader hwriter
  have hfit' := Session.start_fit fds hw' hr' hd' (hunread ▸ hreader) (hunread ▸ hwriter)
  have hstart : (Session.start fds k).flow = (Session.start fds k').flow := by
    refine Flow.ext rfl rfl rfl rfl rfl rfl ?_ (funext fun fd => ?_) rfl hsent.symm
    · exact congrArg (_ ++ ·) (congrFun hunread.symm _)
    · show (if fd = fds.frontend then [] else _) = (if fd = fds.frontend then [] else _)
      split
      · rfl
      · exact congrArg (_ ++ ·) (congrFun hunread.symm _)
  have hsame : (Session.step^[n] (Session.start fds k)).flow = (Session.step^[n] (Session.start fds k')).flow := by
    rw [run_flow hfit n hu, run_flow hfit' n hu', hstart]
  exact ⟨congrArg Flow.pc hsame, congrArg Flow.befd hsame, congrArg Flow.inTxn hsame, congrArg Flow.sent hsame⟩

/-- A kernel that delivers at most `n` octets at a time. -/
def slowKernel (n : ℕ) (client reader writer : List Octet) : Kernel :=
  { someKernel client reader writer with reads := Stream'.const (.upto n) }

/-- A request that is refused, read at once or thirteen octets at a time. -/
theorem segmentation_refused :
    let k := someKernel (queryMessage [0x69]) (REFUSAL ++ READY) READY
    let k' := slowKernel 13 (queryMessage [0x69]) (REFUSAL ++ READY) READY
    (Session.step^[7] (Session.start someDescriptors k)).Agrees
    (Session.step^[7] (Session.start someDescriptors k')) := by
  intro k k'
  have hreader : Legible Message.WellFormed (k.unread 4) := legible_refusal legible_ready
  have hwriter : Legible Message.WellFormed (k.unread 5) := legible_ready
  have hunread : k'.unread = k.unread := rfl
  exact segmentation someDescriptors hunread rfl (Kernel.eager_writesAll _) (fun _ => rfl) (Kernel.eager_readsOk _)
    (fun _ => nofun) (Kernel.eager_diskOk _) ⟨fun _ => rfl, fun _ => nofun⟩ hreader hwriter 7 (by decide +kernel)
    (by decide +kernel)

/-- The Query `begin` is sent to the writer, or to the reader if the first `read` delivers no
more than five octets of it. -/
theorem not_segmentation_begin :
    ¬ ∀ (fds : Descriptors) (k k' : Kernel) (n : ℕ), k'.unread = k.unread → k'.sent = k.sent → k.WritesAll →
      k'.WritesAll → k.ReadsOk → k'.ReadsOk → k.DiskOk → k'.DiskOk →
      Legible Message.WellFormed (k.unread fds.reader) → Legible Message.WellFormed (k.unread fds.writer) →
      (Session.step^[n] (Session.start fds k)).Agrees (Session.step^[n] (Session.start fds k')) := by
  intro hall
  have h := hall someDescriptors (someKernel (queryMessage BEGIN) [] [])
    (slowKernel 5 (queryMessage BEGIN) [] []) 2 rfl rfl
    (Kernel.eager_writesAll _) (fun _ => rfl) (Kernel.eager_readsOk _) (fun _ => nofun) (Kernel.eager_diskOk _)
    ⟨fun _ => rfl, fun _ => nofun⟩ .nil .nil
  exact absurd h.befd (by decide +kernel)

end PgRouter.Worker
