import PgRouter.Worker.Rounds

/-!
# Which backend is read

Three parts of the state of a session say which backend a request goes to: `befd`, the
output descriptor of `fe`, which the request is sent to, and the input descriptor of `be`,
which the reply is read from. They are set together at the head of the outer loop and when
the request is redirected. When a Query begins a transaction, `befd` and the output
descriptor of `fe` are set to the writer, and the input descriptor of `be` is not.

## What is proved

The reply to a request is read from the backend that has received the request just when the
request is not one that begins a transaction while none is open (`backend_agrees_iff`). The
reply to such a request is read from the reader, which has not received it.
-/

namespace PgRouter.Worker

open Foundation Wire

namespace Session

/-- Enters whether the current request has begun a transaction while none was open. -/
def noteOpened (s : Session) (opened : Bool) : Bool :=
  match s.pc with
  | .loopHead => false
  | .feRecv => opened || decide (s.inTxn = false ∧ IsBegin s.recvFe.2.fe)
  | _ => opened

/-- How the three parts of the state are related. -/
structure Wired (s : Session) (opened : Bool) : Prop where
  /-- The buffers are in order. -/
  sound : s.Sound
  /-- The request is sent to `befd`. -/
  out : s.fe.outfd = s.befd
  /-- The reply is read from `befd`, unless the request has begun a transaction. -/
  same : opened = false → s.be.infd = s.befd
  /-- Then it is read from the reader, and has been sent to the writer. -/
  crossed : opened = true → s.be.infd = s.fds.reader ∧ s.befd = s.fds.writer
  /-- A transaction is sent to the writer. -/
  txn : s.inTxn = true → s.befd = s.fds.writer
  /-- A message of a request that is not the last does not begin a transaction. -/
  first : s.pc = .feRecv → opened = false ∧ (s.inTxn = false → s.befd = s.fds.reader)
  /-- Only what the reader has been asked is redirected. -/
  asked : s.Asked

theorem start_wired (fds : Descriptors) (kernel : Kernel) : (start fds kernel).Wired false where
  sound := start_sound fds kernel
  out := rfl
  same := fun _ => rfl
  crossed := nofun
  txn := nofun
  first := nofun
  asked := by rintro (h | h) <;> cases h

/-- `route` keeps the output descriptor of `fe` at `befd`. -/
theorem route_out {s : Session} (h : s.fe.outfd = s.befd) : s.route.fe.outfd = s.route.befd := by
  have hne := ne_same_fd s.fds.writer_nonneg
  rw [route_fe, route_befd]
  split
  · exact if_pos hne
  · exact h

/-- Setting both descriptors to the backend sets them. -/
theorem setBackend_wired (s : Session) (h : 0 ≤ s.befd) :
    s.setBackend.fe.outfd = s.befd ∧ s.setBackend.be.infd = s.befd :=
  ⟨if_pos (ne_same_fd h), if_pos (ne_same_fd h)⟩

/-- A text that is not all there does not begin with the word. -/
theorem queryBegins_of_lt {m : Mbuf} (h : m.available < 5) {word : List Octet} (hpos : 0 < word.length)
    (hlen : word.length ≤ 6) : queryBegins m word = false := by
  have hnull : pgrMbufData m 0 word.length = none := by
    rw [pgrMbufData_eq (by omega), if_pos (by omega)]
  rw [queryBegins, hnull]

/-- Fewer than five octets are no Query. -/
theorem not_isBegin_of_lt {m : Mbuf} (h : m.available < 5) : ¬ IsBegin m := by
  rintro ⟨-, hq⟩
  rw [queryBegins_of_lt h (by decide) (by decide)] at hq
  cases hq

/-- A message of the client has been sent. -/
theorem Wired.sent {s : Session} {opened : Bool} (hw : s.Wired opened) (pc : s.pc = .feRecv) (pc' : Pc)
    (hmore : pc' = .feRecv → pgrMbufMsgtype s.recvFe.2.fe ≠ chr 'Q')
    (hasked : (s.recvFe.2.route.sendFe.2.goto pc').Asked) :
    (s.recvFe.2.route.sendFe.2.goto pc').Wired (s.noteOpened opened) := by
  obtain ⟨hopened, hreader⟩ := hw.first pc
  have hnote : s.noteOpened opened = decide (s.inTxn = false ∧ IsBegin s.recvFe.2.fe) := by
    rw [noteOpened, pc, hopened, Bool.false_or]
  have hbefd : s.recvFe.2.route.befd = if IsBegin s.recvFe.2.fe then s.fds.writer else s.befd :=
    s.recvFe.2.route_befd
  have hinfd : s.recvFe.2.route.sendFe.2.be.infd = s.be.infd := congrArg Mbuf.infd s.recvFe.2.route_be
  have hfds : s.recvFe.2.route.sendFe.2.fds = s.fds := s.recvFe.2.route_fds
  have hrecv : s.recvFe.2.fe.outfd = s.befd := (pgrMbufRecv_safe hw.sound.fe s.kernel).outfd.trans hw.out
  have hsound := hw.sound.recvFe.route
  rw [hnote]
  refine ⟨hsound.sendFe.goto _, (pgrMbufSend_safe hsound.fe _).outfd.trans (route_out hrecv), fun ho => ?_,
    fun ho => ?_, fun htxn => ?_, fun hpc => ⟨?_, fun htxn => ?_⟩, hasked⟩
  · -- a Query that begins a transaction where one is open leaves the backend as it is
    show s.recvFe.2.route.sendFe.2.be.infd = s.recvFe.2.route.befd
    rw [hinfd, hbefd, hw.same hopened]
    split
    · rename_i hb
      have htxn : s.inTxn ≠ false := fun h => by simp [h, hb] at ho
      exact hw.txn (by simpa using htxn)
    · rfl
  · obtain ⟨htxn, hb⟩ := of_decide_eq_true ho
    refine ⟨?_, ?_⟩
    · show s.recvFe.2.route.sendFe.2.be.infd = s.recvFe.2.route.sendFe.2.fds.reader
      rw [hinfd, hfds, hw.same hopened, hreader htxn]
    · show s.recvFe.2.route.befd = s.recvFe.2.route.sendFe.2.fds.writer
      rw [hbefd, if_pos hb, hfds]
  · show s.recvFe.2.route.befd = s.recvFe.2.route.sendFe.2.fds.writer
    rw [hbefd, hfds]
    split
    · rfl
    · exact hw.txn ((route_inTxn htxn).resolve_left ‹_›)
  · simpa using fun _ hb => hmore hpc hb.1
  · have hroute : s.recvFe.2.route = s.recvFe.2 := if_neg (hmore hpc)
    show s.recvFe.2.route.befd = s.recvFe.2.route.sendFe.2.fds.reader
    rw [hfds, hroute]
    rw [hroute] at htxn
    exact hreader htxn

/-- What is done with `be` leaves the three parts alone, and so does what is done with `fe`
in the COPY DATA sub-protocol. -/
theorem Wired.kept {s s' : Session} {opened : Bool} (hw : s.Wired opened) (hsound : s'.Sound) (hfds : s'.fds = s.fds)
    (hout : s'.fe.outfd = s.fe.outfd) (hin : s'.be.infd = s.be.infd) (hbefd : s'.befd = s.befd)
    (htxn : s'.inTxn = s.inTxn) (hpc : s'.pc ≠ .feRecv) (hasked : s'.Asked) : s'.Wired opened where
  sound := hsound
  out := by rw [hout, hbefd, hw.out]
  same := by rw [hin, hbefd]; exact hw.same
  crossed := by rw [hin, hbefd, hfds]; exact hw.crossed
  txn := by rw [htxn, hbefd, hfds]; exact hw.txn
  first := fun h => absurd h hpc
  asked := hasked

/-- Every round keeps the three parts wired. -/
theorem Round.wired {s s' : Session} (h : Round s s') {opened : Bool} (hw : s.Wired opened) :
    s'.Wired (s.noteOpened opened) := by
  obtain ⟨hsound, hfds⟩ := h.sound hw.sound
  have hasked := h.asked hw.asked
  have hfe := pgrMbufRecv_safe hw.sound.fe s.kernel
  have hbe := pgrMbufRecv_safe hw.sound.be s.kernel
  have hrelayFe := hfe.trans (pgrMbufRelay_safe hfe.wf _)
  have hrelayBe := hbe.trans (pgrMbufRelay_safe hbe.wf _)
  have hdrain := drainRound_safe (chr 'Z') hw.sound.be s.kernel
  have hnote : ∀ {pc : Pc}, s.pc = pc → pc ≠ .loopHead ∧ pc ≠ .feRecv → s.noteOpened opened = opened := by
    rintro _ rfl ⟨hhead, hrecv⟩
    unfold noteOpened
    split <;> first | contradiction | rfl
  cases h with
  | next pc =>
    rw [noteOpened, pc]
    rw [loopHead_eq] at hsound hasked ⊢
    have hnonneg : 0 ≤ if s.inTxn then s.befd else s.fds.reader := by
      split
      · rename_i htxn
        exact hw.txn htxn ▸ s.fds.writer_nonneg
      · exact s.fds.reader_nonneg
    obtain ⟨hout, hin⟩ := setBackend_wired { s with befd := if s.inTxn then s.befd else s.fds.reader } hnonneg
    exact ⟨hsound, hout, fun _ => hin, nofun, fun htxn => (if_pos htxn).trans (hw.txn htxn),
      fun _ => ⟨rfl, fun htxn => if_neg (ne_true_of_eq_false htxn)⟩, hasked⟩
  | feFailed pc recv =>
    -- the read has failed, so there is no message
    have hnone : ¬ IsBegin s.recvFe.2.fe := by
      obtain ⟨-, -, ⟨-, hrc⟩ | ⟨-, hrc, -⟩ | ⟨hlt, -, -⟩⟩ := pgrMbufRecv_spec hw.sound.fe s.kernel rfl
      · exact absurd recv (by rw [show s.recvFe.1 = _ from hrc]; exact not_lt.mpr (Int.natCast_nonneg _))
      · exact absurd recv (by rw [show s.recvFe.1 = _ from hrc]; decide)
      · exact not_isBegin_of_lt hlt
    have hopened : s.noteOpened opened = opened := by
      rw [noteOpened, pc]
      simp [hnone]
    rw [hopened]
    exact hw.kept hsound hfds hfe.outfd rfl rfl rfl nofun hasked
  | feRefused pc => exact hw.sent pc _ nofun hasked
  | closed pc =>
    have h := hw.sent pc .shutdown nofun hasked
    exact ⟨hsound, h.out, h.same, h.crossed, h.txn, nofun, hasked⟩
  | feMore pc recv send type => exact hw.sent pc _ (fun _ => type.1) hasked
  | feLast pc => exact hw.sent pc _ nofun hasked
  | beFailed pc =>
    rw [hnote pc (by decide)]
    exact hw.kept hsound hfds rfl hbe.infd rfl rfl nofun hasked
  | badRouting pc recv error reader =>
    rw [hnote pc (by decide)]
    exact hw.kept hsound hfds rfl hbe.infd rfl rfl nofun hasked
  | beRefused pc =>
    rw [hnote pc (by decide)]
    exact hw.kept hsound hfds rfl hrelayBe.infd rfl rfl nofun hasked
  | replied pc' pc recv error relay type =>
    rw [hnote pc (by decide)]
    refine hw.kept hsound hfds rfl hrelayBe.infd rfl rfl ?_ hasked
    rcases type with ⟨-, rfl⟩ | ⟨-, rfl⟩ | ⟨-, rfl⟩ <;> nofun
  | draining pc round =>
    rw [round] at hdrain
    rw [hnote pc (by decide)]
    exact hw.kept hsound hfds rfl hdrain.infd rfl rfl (by simp [pc]) hasked
  | drained pc round =>
    rw [round] at hdrain
    rw [hnote pc (by decide)]
    exact hw.kept hsound hfds rfl hdrain.infd rfl rfl nofun hasked
  | redirected pc =>
    rw [hnote pc (by decide)]
    obtain ⟨hout, hin⟩ := setBackend_wired { s with befd := s.fds.writer } s.fds.writer_nonneg
    have hresend := (pgrMbufResend_safe (hw.sound.setBackend s.fds.frontend_ne_writer.symm).fe s.kernel).1
    have hopened : opened ≠ true := fun ho =>
      s.fds.reader_ne_writer ((hw.asked (.inr pc)).symm.trans (hw.crossed ho).2)
    exact ⟨hsound, hresend.outfd.trans hout, fun _ => hin, fun ho => absurd ho hopened, fun _ => rfl, nofun, hasked⟩
  | copyFailed pc =>
    rw [hnote pc (by decide)]
    exact hw.kept hsound hfds hfe.outfd rfl rfl rfl nofun hasked
  | copyRefused pc =>
    rw [hnote pc (by decide)]
    exact hw.kept hsound hfds hrelayFe.outfd rfl rfl rfl nofun hasked
  | copied pc' pc recv relay type =>
    rw [hnote pc (by decide)]
    refine hw.kept hsound hfds hrelayFe.outfd rfl rfl rfl ?_ hasked
    rcases type with ⟨-, rfl⟩ | ⟨-, -, rfl⟩ <;> nofun
  | halted pc =>
    rw [hnote pc (by decide)]
    exact hw

end Session

/-- Whether the current request has begun a transaction while none was open, after `n` steps. -/
def opened (fds : Descriptors) (kernel : Kernel) (n : ℕ) : Bool :=
  history Session.step Session.noteOpened (Session.start fds kernel) false n

/-- They are wired in every state of a session. -/
theorem run_wired (fds : Descriptors) (kernel : Kernel) (n : ℕ) :
    (Session.step^[n] (Session.start fds kernel)).Wired (opened fds kernel n) :=
  history_induction (fun s _ h => s.step_round.wired h) (Session.start_wired fds kernel) n

/-- **Which backend is read.** When a message of the reply is about to be received, it is read
from the backend that the request has been sent to, just when the request has not begun a
transaction while none was open. -/
theorem backend_agrees_iff (fds : Descriptors) (kernel : Kernel) (n : ℕ) :
    let s := Session.step^[n] (Session.start fds kernel)
    s.pc = .beRecv → ((s.be.infd = s.befd ∧ s.befd = s.fe.outfd) ↔ opened fds kernel n = false) := by
  intro s _
  have hw : s.Wired (opened fds kernel n) := run_wired fds kernel n
  constructor
  · rintro ⟨hin, -⟩
    by_contra hopened
    obtain ⟨hreader, hwriter⟩ := hw.crossed (by simpa using hopened)
    exact s.fds.reader_ne_writer (hreader.symm.trans (hin.trans hwriter))
  · intro hopened
    exact ⟨hw.same hopened, hw.out.symm⟩

/-- The reply to a Sync is read from the reader, which it has been sent to. -/
theorem backend_agrees_sync :
    let s := Session.step^[2] (Session.start someDescriptors (someKernel [0x53, 0, 0, 0, 4] [] []))
    s.be.infd = s.befd ∧ s.befd = s.fe.outfd :=
  (backend_agrees_iff someDescriptors _ 2 (by decide +kernel)).mpr (by decide +kernel)

/-- The reply to the Query `begin` is not read from the writer, which it has been sent to. -/
theorem not_backend_agrees_begin :
    ¬ ∀ (fds : Descriptors) (kernel : Kernel) (n : ℕ),
      let s := Session.step^[n] (Session.start fds kernel)
      s.pc = .beRecv → s.be.infd = s.befd ∧ s.befd = s.fe.outfd := by
  intro hall
  have h := hall someDescriptors (someKernel (queryMessage BEGIN) [] []) 2 (by decide +kernel)
  exact absurd h.1 (by decide +kernel)

end PgRouter.Worker
