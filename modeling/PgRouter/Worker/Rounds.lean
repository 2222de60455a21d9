import PgRouter.Wire.Invariant
import PgRouter.Worker.HandleClient

/-!
# The rounds of a session

What a step of `handle_client` can do, said once (`Round`, `step_round`): one case for each
way through a round, with the tests that lead to it. Everything that is proved of sessions
is proved case by case from this.
-/

namespace PgRouter.Worker

open Foundation Wire

namespace Session

/-- A way through a round, and what it leaves. -/
inductive Round (s : Session) : Session → Prop
  /-- A request begins. -/
  | next (pc : s.pc = .loopHead) : Round s s.loopHead
  /-- The client cannot be read. -/
  | feFailed (pc : s.pc = .feRecv) (recv : s.recvFe.1 < 0) : Round s (s.recvFe.2.goto .shutdown)
  /-- A message cannot be sent. -/
  | feRefused (pc : s.pc = .feRecv) (recv : 0 ≤ s.recvFe.1) (send : s.recvFe.2.route.sendFe.1 ≠ 0) :
      Round s (s.recvFe.2.route.sendFe.2.goto .shutdown)
  /-- A Terminate message has been sent. -/
  | closed (pc : s.pc = .feRecv) (recv : 0 ≤ s.recvFe.1) (send : s.recvFe.2.route.sendFe.1 = 0)
      (type : pgrMbufMsgtype s.recvFe.2.fe = chr 'X') : Round s s.recvFe.2.route.sendFe.2.terminate
  /-- A message of the request has been sent, and it is not the last one. -/
  | feMore (pc : s.pc = .feRecv) (recv : 0 ≤ s.recvFe.1) (send : s.recvFe.2.route.sendFe.1 = 0)
      (type : pgrMbufMsgtype s.recvFe.2.fe ≠ chr 'Q' ∧ pgrMbufMsgtype s.recvFe.2.fe ≠ chr 'S') :
      Round s (s.recvFe.2.route.sendFe.2.goto .feRecv)
  /-- The last message of the request has been sent. -/
  | feLast (pc : s.pc = .feRecv) (recv : 0 ≤ s.recvFe.1) (send : s.recvFe.2.route.sendFe.1 = 0)
      (type : pgrMbufMsgtype s.recvFe.2.fe = chr 'Q' ∨ pgrMbufMsgtype s.recvFe.2.fe = chr 'S') :
      Round s (s.recvFe.2.route.sendFe.2.goto .beRecv)
  /-- The backend cannot be read. -/
  | beFailed (pc : s.pc = .beRecv) (recv : s.recvBe.1 < 0) : Round s (s.recvBe.2.goto .shutdown)
  /-- The reader has refused the request. -/
  | badRouting (pc : s.pc = .beRecv) (recv : 0 ≤ s.recvBe.1)
      (error : pgrMbufIserror s.recvBe.2.be (some BAD_ROUTING) = 0) (reader : s.befd = s.fds.reader) :
      Round s (s.recvBe.2.goto .drain)
  /-- A message cannot be relayed. -/
  | beRefused (pc : s.pc = .beRecv) (recv : 0 ≤ s.recvBe.1)
      (error : ¬ (pgrMbufIserror s.recvBe.2.be (some BAD_ROUTING) = 0 ∧ s.befd = s.fds.reader))
      (relay : s.recvBe.2.relayBe.1 ≠ 0) : Round s (s.recvBe.2.relayBe.2.goto .shutdown)
  /-- A message of the reply has been relayed: `pc` says which. -/
  | replied (pc' : Pc) (pc : s.pc = .beRecv) (recv : 0 ≤ s.recvBe.1)
      (error : ¬ (pgrMbufIserror s.recvBe.2.be (some BAD_ROUTING) = 0 ∧ s.befd = s.fds.reader))
      (relay : s.recvBe.2.relayBe.1 = 0)
      (type : (pgrMbufMsgtype s.recvBe.2.be = chr 'G' ∧ pc' = .copyRecv) ∨
        (pgrMbufMsgtype s.recvBe.2.be = chr 'Z' ∧ pc' = .loopHead) ∨
        (pgrMbufMsgtype s.recvBe.2.be ≠ chr 'Z' ∧ pc' = .beRecv)) :
      Round s (s.recvBe.2.relayBe.2.goto pc')
  /-- Another message is drained. -/
  | draining {m : Mbuf} {k : Kernel} (pc : s.pc = .drain) (round : drainRound (chr 'Z') s.be s.kernel = .ok (m, k)) :
      Round s { s with be := m, kernel := k }
  /-- The rest of the reply has been drained. -/
  | drained {rc : ℤ} {m : Mbuf} {k : Kernel} (pc : s.pc = .drain)
      (round : drainRound (chr 'Z') s.be s.kernel = .error (rc, m, k)) :
      Round s ({ s with be := m, kernel := k }.goto .redirect)
  /-- The request has been resent. -/
  | redirected (pc : s.pc = .redirect) : Round s s.redirect
  /-- The client cannot be read. -/
  | copyFailed (pc : s.pc = .copyRecv) (recv : s.recvFe.1 < 0) : Round s (s.recvFe.2.goto .shutdown)
  /-- A message cannot be relayed. -/
  | copyRefused (pc : s.pc = .copyRecv) (recv : 0 ≤ s.recvFe.1) (relay : s.recvFe.2.relayFe.1 ≠ 0) :
      Round s (s.recvFe.2.relayFe.2.goto .shutdown)
  /-- A message of the COPY DATA sub-protocol has been relayed: `pc'` says whether it is the last one. -/
  | copied (pc' : Pc) (pc : s.pc = .copyRecv) (recv : 0 ≤ s.recvFe.1) (relay : s.recvFe.2.relayFe.1 = 0)
      (type : ((pgrMbufMsgtype s.recvFe.2.fe = chr 'c' ∨ pgrMbufMsgtype s.recvFe.2.fe = chr 'F') ∧ pc' = .beRecv) ∨
        (pgrMbufMsgtype s.recvFe.2.fe ≠ chr 'c' ∧ pgrMbufMsgtype s.recvFe.2.fe ≠ chr 'F' ∧ pc' = .copyRecv)) :
      Round s (s.recvFe.2.relayFe.2.goto pc')
  /-- Nothing happens any more. -/
  | halted (pc : s.pc = .shutdown) : Round s s

theorem feRecv_round (s : Session) (pc : s.pc = .feRecv) : Round s s.feRecv := by
  unfold feRecv
  simp only
  split_ifs with hrecv hsend hclosed hmore
  · exact .feFailed pc hrecv
  · exact .feRefused pc (not_lt.mp hrecv) hsend
  · exact .closed pc (not_lt.mp hrecv) (not_not.mp hsend) hclosed
  · exact .feMore pc (not_lt.mp hrecv) (not_not.mp hsend) hmore
  · exact .feLast pc (not_lt.mp hrecv) (not_not.mp hsend) (by
      rw [ne_eq, ne_eq, ← not_or, not_not] at hmore
      exact hmore)

theorem beRecv_round (s : Session) (pc : s.pc = .beRecv) : Round s s.beRecv := by
  unfold beRecv
  simp only
  split_ifs with hrecv herror hrelay hcopy hmore
  · exact .beFailed pc hrecv
  · exact .badRouting pc (not_lt.mp hrecv) herror.1 herror.2
  · exact .beRefused pc (not_lt.mp hrecv) herror hrelay
  · exact .replied _ pc (not_lt.mp hrecv) herror (not_not.mp hrelay) (.inl ⟨hcopy, rfl⟩)
  · exact .replied _ pc (not_lt.mp hrecv) herror (not_not.mp hrelay) (.inr (.inr ⟨hmore, rfl⟩))
  · exact .replied _ pc (not_lt.mp hrecv) herror (not_not.mp hrelay) (.inr (.inl ⟨not_not.mp hmore, rfl⟩))

theorem drain_round (s : Session) (pc : s.pc = .drain) : Round s s.drain := by
  unfold drain
  split
  · exact .draining pc ‹_›
  · exact .drained pc ‹_›

theorem copyRecv_round (s : Session) (pc : s.pc = .copyRecv) : Round s s.copyRecv := by
  unfold copyRecv
  simp only
  split_ifs with hrecv hrelay hmore
  · exact .copyFailed pc hrecv
  · exact .copyRefused pc (not_lt.mp hrecv) hrelay
  · exact .copied _ pc (not_lt.mp hrecv) (not_not.mp hrelay) (.inr ⟨hmore.1, hmore.2, rfl⟩)
  · exact .copied _ pc (not_lt.mp hrecv) (not_not.mp hrelay) (.inl ⟨by
      rw [ne_eq, ne_eq, ← not_or, not_not] at hmore
      exact hmore, rfl⟩)

/-- **A step goes through a round.** -/
theorem step_round (s : Session) : Round s s.step := by
  unfold step
  cases pc : s.pc with
  | loopHead => exact .next pc
  | feRecv => exact s.feRecv_round pc
  | beRecv => exact s.beRecv_round pc
  | drain => exact s.drain_round pc
  | redirect => exact .redirected pc
  | copyRecv => exact s.copyRecv_round pc
  | shutdown => exact .halted pc

/-- The head of the outer loop goes to the reader, unless a transaction is open. -/
theorem loopHead_eq (s : Session) :
    s.loopHead = { s with befd := if s.inTxn then s.befd else s.fds.reader }.setBackend.goto .feRecv := by
  unfold loopHead
  by_cases htxn : s.inTxn = true
  · rw [if_pos htxn, if_pos htxn]
  · rw [if_neg htxn, if_neg htxn]

/-! ### What every step keeps -/

@[simp] theorem goto_pc (s : Session) (pc : Pc) : (s.goto pc).pc = pc := rfl

/-- The message begins a transaction. -/
def IsBegin (m : Mbuf) : Prop := pgrMbufMsgtype m = chr 'Q' ∧ queryBegins m BEGIN = true

instance (m : Mbuf) : Decidable (IsBegin m) := inferInstanceAs (Decidable (_ ∧ _))

/-- What the block `if (type == 'Q')` does: it begins a transaction, and decides whether
one is open. -/
theorem route_eq (s : Session) :
    ∃ t, s.route = { (if IsBegin s.fe then s.beginTxn else s) with inTxn := t } ∧
      (t = true → IsBegin s.fe ∨ s.inTxn = true) := by
  unfold route
  by_cases htype : pgrMbufMsgtype s.fe = chr 'Q'
  · rw [if_pos htype]
    by_cases hbegin : queryBegins s.fe BEGIN = true
    · have hb : IsBegin s.fe := ⟨htype, hbegin⟩
      rw [if_pos hb, if_pos hbegin]
      dsimp only
      split
      · exact ⟨false, rfl, nofun⟩
      · exact ⟨true, rfl, fun _ => .inl hb⟩
    · have hb : ¬ IsBegin s.fe := fun h => hbegin h.2
      rw [if_neg hb, if_neg hbegin]
      dsimp only
      split
      · exact ⟨false, rfl, nofun⟩
      · exact ⟨s.inTxn, rfl, .inr⟩
  · have hb : ¬ IsBegin s.fe := fun h => htype h.1
    rw [if_neg htype, if_neg hb]
    exact ⟨s.inTxn, rfl, .inr⟩

/-- It does nothing to `fe` but set its output descriptor. -/
theorem route_fe (s : Session) :
    s.route.fe = if IsBegin s.fe then pgrMbufSetfd s.fe MBUF_SAME_FD s.fds.writer else s.fe := by
  obtain ⟨t, heq, -⟩ := s.route_eq
  rw [heq]
  split <;> rfl

theorem route_befd (s : Session) : s.route.befd = if IsBegin s.fe then s.fds.writer else s.befd := by
  obtain ⟨t, heq, -⟩ := s.route_eq
  rw [heq]
  split <;> rfl

theorem route_inTxn {s : Session} (h : s.route.inTxn = true) : IsBegin s.fe ∨ s.inTxn = true := by
  obtain ⟨t, heq, ht⟩ := s.route_eq
  rw [heq] at h
  exact ht h

/-- It touches nothing else. -/
theorem route_frame (s : Session) : s.route.be = s.be ∧ s.route.fds = s.fds ∧ s.route.kernel = s.kernel := by
  obtain ⟨t, heq, -⟩ := s.route_eq
  rw [heq]
  split <;> exact ⟨rfl, rfl, rfl⟩

@[simp] theorem route_be (s : Session) : s.route.be = s.be := s.route_frame.1

@[simp] theorem route_fds (s : Session) : s.route.fds = s.fds := s.route_frame.2.1

@[simp] theorem route_kernel (s : Session) : s.route.kernel = s.kernel := s.route_frame.2.2

theorem route_wf {s : Session} (h : s.fe.Wf) : s.route.fe.Wf := by
  rw [route_fe]
  split
  · exact pgrMbufSetfd_wf h _ _
  · exact h

theorem route_infd (s : Session) : s.route.fe.infd = s.fe.infd := by
  rw [route_fe]
  split <;> rfl

theorem route_len (s : Session) : s.route.fe.len = s.fe.len := by
  rw [route_fe]
  split <;> rfl

/-- What holds of every state of a session. -/
structure Sound (s : Session) : Prop where
  /-- `fe` is in order. -/
  fe : s.fe.Wf
  /-- `be` is in order. -/
  be : s.be.Wf
  /-- `fe` is read from the client. -/
  infd : s.fe.infd = s.fds.frontend
  /-- `be` is written to the client. -/
  outfd : s.be.outfd = s.fds.frontend
  /-- The size of `fe`. -/
  feLen : s.fe.len = 16384
  /-- The size of `be`. -/
  beLen : s.be.len = 4096
  /-- `be` is not read from the client. -/
  source : s.be.infd ≠ s.fds.frontend
  /-- The request does not go to the client. -/
  befd : s.befd ≠ s.fds.frontend

theorem start_sound (fds : Descriptors) (kernel : Kernel) : (start fds kernel).Sound := by
  have hne := ne_same_fd fds.frontend_nonneg
  have hno : MBUF_NO_FD ≠ fds.frontend := by
    intro h
    exact absurd (h ▸ fds.frontend_nonneg) (by decide)
  exact ⟨⟨le_rfl, Nat.zero_le _⟩, ⟨le_rfl, Nat.zero_le _⟩, if_pos hne, if_pos hne, rfl, rfl, hno, hno⟩

/-- Of `fe` only the output descriptor may change, if it is not through an operation. -/
theorem Sound.withFe {s : Session} (h : s.Sound) {r : Outcome} (hs : Safe s.fe s.kernel r.2.1 r.2.2) :
    (s.withFe r).2.Sound :=
  { h with fe := hs.wf, infd := hs.infd.trans h.infd, feLen := hs.len.trans h.feLen }

theorem Sound.withBe {s : Session} (h : s.Sound) {r : Outcome} (hs : Safe s.be s.kernel r.2.1 r.2.2) :
    (s.withBe r).2.Sound :=
  { h with
    be := hs.wf
    outfd := hs.outfd.trans h.outfd
    beLen := hs.len.trans h.beLen
    source := fun heq => h.source (hs.infd.symm.trans heq) }

theorem Sound.recvFe {s : Session} (h : s.Sound) : s.recvFe.2.Sound := h.withFe (pgrMbufRecv_safe h.fe _)

theorem Sound.recvBe {s : Session} (h : s.Sound) : s.recvBe.2.Sound := h.withBe (pgrMbufRecv_safe h.be _)

theorem Sound.sendFe {s : Session} (h : s.Sound) : s.sendFe.2.Sound := h.withFe (pgrMbufSend_safe h.fe _)

theorem Sound.relayFe {s : Session} (h : s.Sound) : s.relayFe.2.Sound := h.withFe (pgrMbufRelay_safe h.fe _)

theorem Sound.relayBe {s : Session} (h : s.Sound) : s.relayBe.2.Sound := h.withBe (pgrMbufRelay_safe h.be _)

theorem Sound.goto {s : Session} (h : s.Sound) (pc : Pc) : (s.goto pc).Sound := { h with }

theorem Sound.route {s : Session} (h : s.Sound) : s.route.Sound := by
  obtain ⟨hbe, hfds, -⟩ := s.route_frame
  refine ⟨route_wf h.fe, ?_, ?_, ?_, route_len s ▸ h.feLen, ?_, ?_, ?_⟩
  · rw [hbe]
    exact h.be
  · rw [route_infd, hfds]
    exact h.infd
  · rw [hbe, hfds]
    exact h.outfd
  · rw [hbe]
    exact h.beLen
  · rw [hbe, hfds]
    exact h.source
  · rw [route_befd, hfds]
    split
    · exact s.fds.frontend_ne_writer.symm
    · exact h.befd

theorem Sound.setBackend {s : Session} (h : s.Sound) {befd : Fd} (hbefd : befd ≠ s.fds.frontend) :
    ({ s with befd := befd }.setBackend).Sound := by
  refine ⟨pgrMbufSetfd_wf h.fe _ _, pgrMbufSetfd_wf h.be _ _, h.infd, h.outfd, h.feLen, h.beLen, ?_, hbefd⟩
  show (if befd ≠ MBUF_SAME_FD then befd else s.be.infd) ≠ s.fds.frontend
  split
  · exact hbefd
  · exact h.source

/-- Every round keeps the session sound, and its descriptors. -/
theorem Round.sound {s s' : Session} (h : Round s s') (hs : s.Sound) : s'.Sound ∧ s'.fds = s.fds := by
  have hfe := hs.recvFe
  have hbe := hs.recvBe
  have hsend := hfe.route.sendFe
  have hfds : s.recvFe.2.route.sendFe.2.fds = s.fds := s.recvFe.2.route_fds
  have hd := drainRound_safe (chr 'Z') hs.be s.kernel
  cases h with
  | next pc =>
    rw [loopHead_eq]
    refine ⟨(hs.setBackend ?_).goto _, rfl⟩
    split
    · exact hs.befd
    · exact s.fds.frontend_ne_reader.symm
  | feFailed | copyFailed => exact ⟨hfe.goto _, rfl⟩
  | feRefused | feMore | feLast => exact ⟨hsend.goto _, hfds⟩
  | closed => exact ⟨{ hsend with }, hfds⟩
  | beFailed | badRouting => exact ⟨hbe.goto _, rfl⟩
  | beRefused | replied => exact ⟨hbe.relayBe.goto _, rfl⟩
  | draining pc round => rw [round] at hd; exact ⟨hs.withBe (r := (0, _, _)) hd, rfl⟩
  | drained pc round => rw [round] at hd; exact ⟨(hs.withBe (r := (0, _, _)) hd).goto _, rfl⟩
  | redirected =>
    have hset := hs.setBackend s.fds.frontend_ne_writer.symm
    have hr := (pgrMbufResend_safe hset.fe s.kernel).1
    exact ⟨{ hset with
      fe := ⟨le_rfl, Nat.zero_le _⟩
      infd := hr.infd.trans hset.infd
      feLen := hr.len.trans hset.feLen }, rfl⟩
  | copyRefused | copied => exact ⟨hfe.relayFe.goto _, rfl⟩
  | halted => exact ⟨hs, rfl⟩

/-- Every state of a session is sound. -/
theorem run_sound {s : Session} (h : s.Sound) (n : ℕ) : (step^[n] s).Sound ∧ (step^[n] s).fds = s.fds := by
  induction n with
  | zero => exact ⟨h, rfl⟩
  | succ n ih =>
    rw [Function.iterate_succ_apply']
    obtain ⟨hs, hfds⟩ := (step_round _).sound ih.1
    exact ⟨hs, hfds.trans ih.2⟩

/-- The kernel is later when a message of the client has been received and sent. -/
theorem Sound.sendFe_follows {s : Session} (hs : s.Sound) : s.kernel.Follows s.recvFe.2.route.sendFe.2.kernel := by
  have hfe := pgrMbufRecv_safe hs.fe s.kernel
  have hsafe := pgrMbufSend_safe hs.recvFe.route.fe s.recvFe.2.route.kernel
  rw [route_kernel] at hsafe
  have hk : s.recvFe.2.route.sendFe.2.kernel = (pgrMbufSend s.recvFe.2.route.fe s.recvFe.2.kernel).2.2 := by
    rw [← route_kernel s.recvFe.2]
    rfl
  rw [hk]
  exact hfe.follows.trans hsafe.follows

/-- The kernel is later after a round. -/
theorem Round.follows {s s' : Session} (h : Round s s') (hs : s.Sound) : s.kernel.Follows s'.kernel := by
  have hfe := pgrMbufRecv_safe hs.fe s.kernel
  have hbe := pgrMbufRecv_safe hs.be s.kernel
  have hsend := hs.sendFe_follows
  have hd := drainRound_safe (chr 'Z') hs.be s.kernel
  cases h with
  | next =>
    rw [loopHead_eq]
    exact .refl _
  | feFailed | copyFailed => exact hfe.follows
  | feRefused | feMore | feLast => exact hsend
  | closed =>
    refine hsend.trans ?_
    exact (writeLoop_spec _ _ _).2.2.follows.trans (writeLoop_spec _ _ _).2.2.follows
  | beFailed | badRouting => exact hbe.follows
  | beRefused | replied => exact (hbe.trans (pgrMbufRelay_safe hbe.wf _)).follows
  | draining pc round => rw [round] at hd; exact hd.follows
  | drained pc round => rw [round] at hd; exact hd.follows
  | redirected => exact (pgrMbufResend_safe (hs.setBackend s.fds.frontend_ne_writer.symm).fe s.kernel).1.follows
  | copyRefused | copied => exact (hfe.trans (pgrMbufRelay_safe hfe.wf _)).follows
  | halted => exact .refl _

/-- So it is after any number of them. -/
theorem run_follows {s : Session} (h : s.Sound) (n : ℕ) : s.kernel.Follows (step^[n] s).kernel := by
  induction n with
  | zero => exact .refl _
  | succ n ih =>
    rw [Function.iterate_succ_apply']
    exact ih.trans ((step_round _).follows (run_sound h n).1)

/-- A round that is about the client reads from the client only, and leaves `be`. -/
theorem Round.client {s s' : Session} (h : Round s s') (hs : s.Sound) (hpc : s.pc = .feRecv ∨ s.pc = .copyRecv) :
    s'.be = s.be ∧ ∀ fd ≠ s.fds.frontend, s'.kernel.unread fd = s.kernel.unread fd := by
  have hfe := pgrMbufRecv_safe hs.fe s.kernel
  have hrecv : ∀ fd ≠ s.fds.frontend, s.recvFe.2.kernel.unread fd = s.kernel.unread fd :=
    fun fd hfd => hfe.other fd (hs.infd ▸ hfd)
  have hrelay : ∀ fd ≠ s.fds.frontend, s.recvFe.2.relayFe.2.kernel.unread fd = s.kernel.unread fd :=
    fun fd hfd => (hfe.trans (pgrMbufRelay_safe hfe.wf _)).other fd (hs.infd ▸ hfd)
  have hsend : ∀ fd ≠ s.fds.frontend, s.recvFe.2.route.sendFe.2.kernel.unread fd = s.kernel.unread fd := by
    intro fd hfd
    have hsent := pgrMbufSend_safe hs.recvFe.route.fe s.recvFe.2.route.kernel
    have hin : s.recvFe.2.route.fe.infd = s.fds.frontend := (route_infd _).trans (hfe.infd.trans hs.infd)
    have hother : s.recvFe.2.route.sendFe.2.kernel.unread fd = s.recvFe.2.route.kernel.unread fd :=
      hsent.other fd (hin ▸ hfd)
    rw [hother, route_kernel]
    exact hrecv fd hfd
  have hbe : s.recvFe.2.route.sendFe.2.be = s.be := s.recvFe.2.route_be
  cases h with
  | feFailed | copyFailed => exact ⟨rfl, hrecv⟩
  | feRefused | feMore | feLast => exact ⟨hbe, hsend⟩
  | closed =>
    refine ⟨hbe, fun fd hfd => ?_⟩
    rw [← hsend fd hfd]
    exact congrFun ((writeLoop_unread _ _ _).trans (writeLoop_unread _ _ _)) fd
  | copyRefused | copied => exact ⟨rfl, hrelay⟩
  | next pc | beFailed pc | badRouting pc | beRefused pc | replied _ pc | draining pc | drained pc | redirected pc
  | halted pc =>
    rw [pc] at hpc
    rcases hpc with hpc | hpc <;> cases hpc

/-- Only what the reader has been asked is redirected. -/
def Asked (s : Session) : Prop := s.pc = .drain ∨ s.pc = .redirect → s.befd = s.fds.reader

theorem Round.asked {s s' : Session} (h : Round s s') (ha : s.Asked) : s'.Asked := by
  have hother : ∀ {s' : Session}, s'.pc ≠ .drain → s'.pc ≠ .redirect → s'.Asked := by
    rintro s' h1 h2 (hpc | hpc)
    · exact absurd hpc h1
    · exact absurd hpc h2
  cases h with
  | badRouting pc recv error reader => exact fun _ => reader
  | draining pc => exact fun _ => ha (.inl pc)
  | drained pc => exact fun _ => ha (.inl pc)
  | replied pc' pc recv error relay type =>
    rcases type with ⟨-, rfl⟩ | ⟨-, rfl⟩ | ⟨-, rfl⟩ <;> exact hother nofun nofun
  | copied pc' pc recv relay type => rcases type with ⟨-, rfl⟩ | ⟨-, -, rfl⟩ <;> exact hother nofun nofun
  | halted => exact ha
  | _ => exact hother nofun nofun

end Session

end PgRouter.Worker
