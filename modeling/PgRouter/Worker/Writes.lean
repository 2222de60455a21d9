import PgRouter.Wire.Sending
import PgRouter.Worker.Routing

/-!
# Where a session writes

## What is proved

Behind the head of the outer loop the request goes to the reader or to the writer (`Session.Round.aimed`). A round
in which a reply is received writes to the client only, and every other round to these two
(`Session.Round.writesTo_client`, `Session.Round.writesTo_backends`), so that nothing is written to any other
descriptor (`Session.Round.writesTo`).
-/

namespace PgRouter.Worker

open Foundation Wire

/-- The backends of a session. -/
def Descriptors.backends (fds : Descriptors) : Set Fd := {fds.reader, fds.writer}

/-- The descriptors of a session. -/
def Descriptors.all (fds : Descriptors) : Set Fd := {fds.frontend, fds.reader, fds.writer}

namespace Session

/-- Behind the head of the outer loop, the request goes to one of the backends. -/
def Aimed (s : Session) : Prop := s.pc = .loopHead ∨ s.befd = s.fds.reader ∨ s.befd = s.fds.writer

variable {s s' : Session} {opened : Bool}

theorem Aimed.route (ha : s.Aimed) (hpc : s.pc ≠ .loopHead) :
    s.recvFe.2.route.befd = s.fds.reader ∨ s.recvFe.2.route.befd = s.fds.writer := by
  have hbefd : s.recvFe.2.route.befd = if IsBegin s.recvFe.2.fe then s.fds.writer else s.befd :=
    s.recvFe.2.route_befd
  rw [hbefd]
  split_ifs
  · exact .inr rfl
  · exact ha.resolve_left hpc

theorem Round.aimed (h : Round s s') (hw : s.Wired opened) (ha : s.Aimed) : s'.Aimed := by
  have hfds := (h.sound hw.sound).2
  have hroute : s.pc = .feRecv → s.recvFe.2.route.befd = s.fds.reader ∨ s.recvFe.2.route.befd = s.fds.writer :=
    fun pc => ha.route (by rw [pc]; decide)
  have hkept : s.pc ≠ .loopHead → s'.befd = s.befd → s'.Aimed := fun hpc hbefd => by
    rw [Aimed, hbefd, hfds]
    exact .inr (ha.resolve_left hpc)
  cases h with
  | next pc =>
    rw [loopHead_eq]
    refine .inr ?_
    change (if s.inTxn then s.befd else s.fds.reader) = s.fds.reader ∨
      (if s.inTxn then s.befd else s.fds.reader) = s.fds.writer
    split_ifs with htxn
    · exact .inr (hw.txn htxn)
    · exact .inl rfl
  | feRefused pc | feMore pc | feLast pc | closed pc =>
    rw [Aimed, hfds]
    exact .inr (hroute pc)
  | redirected => exact .inr (.inr rfl)
  | feFailed pc | beFailed pc | badRouting pc | beRefused pc | replied _ pc | draining pc | drained pc
  | copyFailed pc | copyRefused pc | copied _ pc | halted pc => exact hkept (by rw [pc]; decide) rfl

/-- A round in which a message of the reply is received writes to the client only. -/
theorem Round.writesTo_client (h : Round s s') (hs : s.Sound) (hpc : s.pc = .beRecv) :
    s.kernel.WritesTo {s.fds.frontend} s'.kernel := by
  have hbe : s.kernel.WritesTo {s.fds.frontend} s.recvBe.2.kernel := .of_sent (pgrMbufRecv_sent hs.be _)
  have hrelayBe : s.kernel.WritesTo {s.fds.frontend} s.recvBe.2.relayBe.2.kernel :=
    hbe.trans (pgrMbufRelay_writesTo hs.recvBe.be _ hs.recvBe.outfd)
  cases h with
  | beFailed | badRouting => exact hbe
  | beRefused | replied => exact hrelayBe
  | next pc | feFailed pc | feRefused pc | closed pc | feMore pc | feLast pc | draining pc | drained pc | redirected pc
  | copyFailed pc | copyRefused pc | copied _ pc | halted pc =>
    rw [pc] at hpc
    cases hpc

/-- Every other round writes to the backends only. -/
theorem Round.writesTo_backends (h : Round s s') (hw : s.Wired opened) (ha : s.Aimed) (hpc : s.pc ≠ .beRecv) :
    s.kernel.WritesTo s.fds.backends s'.kernel := by
  have hreader : s.fds.reader ∈ s.fds.backends := .inl rfl
  have hwriter : s.fds.writer ∈ s.fds.backends := .inr rfl
  have hbackend : ∀ fd, fd = s.fds.reader ∨ fd = s.fds.writer → fd ∈ s.fds.backends := fun _ hfd => hfd
  have hfe : s.kernel.WritesTo s.fds.backends s.recvFe.2.kernel := .of_sent (pgrMbufRecv_sent hw.sound.fe _)
  have hin : s.recvFe.2.fe.outfd = s.befd := (pgrMbufRecv_safe hw.sound.fe s.kernel).outfd.trans hw.out
  have hsend : s.pc = .feRecv → s.kernel.WritesTo s.fds.backends s.recvFe.2.route.sendFe.2.kernel := by
    intro pc
    have hout : s.recvFe.2.route.fe.outfd = s.recvFe.2.route.befd := route_out hin
    refine hfe.trans ?_
    rw [← route_kernel s.recvFe.2]
    exact pgrMbufSend_writesTo hw.sound.recvFe.route.fe _ (hout ▸ hbackend _ (ha.route (by rw [pc]; decide)))
  have hrelayFe : s.pc = .copyRecv → s.kernel.WritesTo s.fds.backends s.recvFe.2.relayFe.2.kernel := by
    intro pc
    refine hfe.trans (pgrMbufRelay_writesTo hw.sound.recvFe.fe _ (hin ▸ hbackend _ (ha.resolve_left ?_)))
    rw [pc]
    decide
  have hdrain := drainRound_sent hw.sound.be s.kernel (chr 'Z')
  cases h with
  | next =>
    rw [loopHead_eq]
    exact .refl _
  | feFailed | copyFailed => exact hfe
  | feRefused pc | feMore pc | feLast pc => exact hsend pc
  | closed pc =>
    refine (hsend pc).trans ((pgrSendn_writesTo _ ?_ _).trans (pgrSendn_writesTo _ ?_ _))
    · rw [show s.recvFe.2.route.sendFe.2.fds = s.fds from s.recvFe.2.route_fds]
      exact hreader
    · rw [show s.recvFe.2.route.sendFe.2.fds = s.fds from s.recvFe.2.route_fds]
      exact hwriter
  | beFailed pc | badRouting pc | beRefused pc | replied _ pc => exact absurd pc hpc
  | draining pc round =>
    rw [round] at hdrain
    exact .of_sent hdrain
  | drained pc round =>
    rw [round] at hdrain
    exact .of_sent hdrain
  | redirected =>
    have hset := hw.sound.setBackend s.fds.frontend_ne_writer.symm
    obtain ⟨hout, -⟩ := setBackend_wired { s with befd := s.fds.writer } s.fds.writer_nonneg
    exact pgrMbufResend_writesTo hset.fe _ (by rw [hout]; exact hwriter)
  | copyRefused pc | copied _ pc => exact hrelayFe pc
  | halted => exact .refl _

/-- A round writes to the descriptors of the session only. -/
theorem Round.writesTo (h : Round s s') (hw : s.Wired opened) (ha : s.Aimed) :
    s.kernel.WritesTo s.fds.all s'.kernel := by
  by_cases hpc : s.pc = .beRecv
  · exact (h.writesTo_client hw.sound hpc).mono fun _ hfd => .inl hfd
  · exact (h.writesTo_backends hw ha hpc).mono fun _ hfd => .inr hfd

end Session

end PgRouter.Worker
