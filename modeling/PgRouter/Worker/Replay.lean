import PgRouter.Worker.Traffic

/-!
# What is resent

A request that the reader refuses is resent to the writer from the log of `fe`, and the log
is emptied. It is emptied nowhere else: when the reader has answered a request, what was
sent of it stays in the log.

## What is proved

What is resent is the current request just when it is the only request that has begun since
the session began or a request was last redirected (`resent_iff`). Otherwise the requests
before it, which have been answered, are resent with it.
-/

namespace PgRouter.Worker

open Foundation Wire

/-- What has been forwarded of the current request, and how many requests have begun since
the last redirect. -/
structure Ledger where
  /-- What has been forwarded of the current request. -/
  request : List Octet
  /-- How many requests have begun since the last redirect, the current one included. -/
  begun : ℕ

namespace Session

/-- Keeps the ledger. -/
def noteRequest (s : Session) (l : Ledger) : Ledger :=
  match s.pc with
  | .loopHead => ⟨[], l.begun + 1⟩
  | .feRecv => ⟨l.request ++ contents s.forwarded, l.begun⟩
  | .redirect => ⟨l.request, 0⟩
  | _ => l

/-- What is in the log. -/
structure Logged (s : Session) (l : Ledger) : Prop where
  /-- Every `write` accepts all. -/
  steady : s.Steady
  /-- The disk does not fail. -/
  disk : s.kernel.DiskOk
  /-- Only what the reader has been asked is redirected. -/
  asked : s.Asked
  /-- The log is empty after a redirect, until the next request begins; otherwise it is what
  was forwarded before the current request, and the current request. -/
  log : (l.begun = 0 ∧ s.fe.log = [] ∧ s.pc ≠ .feRecv ∧ (s.pc = .loopHead ∨ s.befd = s.fds.writer)) ∨
    (0 < l.begun ∧ ∃ earlier, s.fe.log = earlier ++ l.request ∧ (l.begun = 1 ↔ earlier = []) ∧
      (s.pc ≠ .feRecv ∧ s.pc ≠ .shutdown → l.request ≠ []))

theorem start_logged (fds : Descriptors) {kernel : Kernel} (hw : kernel.WritesAll) (hd : kernel.DiskOk) :
    (start fds kernel).Logged ⟨[], 0⟩ where
  steady := start_steady fds hw
  disk := hd
  asked := by rintro (h | h) <;> cases h
  log := .inl ⟨rfl, rfl, nofun, .inl rfl⟩

/-- A round that neither begins nor forwards nor redirects a request leaves the log. -/
theorem Logged.kept {s s' : Session} {l : Ledger} (h : s.Logged l) (hround : Round s s') (hlog : s'.fe.log = s.fe.log)
    (hbefd : s'.befd = s.befd) (hpc : s.pc ≠ .loopHead ∧ s.pc ≠ .feRecv ∧ s.pc ≠ .redirect ∧ s.pc ≠ .shutdown)
    (hpc' : s'.pc ≠ .feRecv) : s'.Logged (s.noteRequest l) := by
  have hnote : s.noteRequest l = l := by
    obtain ⟨h1, h2, h3, -⟩ := hpc
    unfold noteRequest
    split <;> first | contradiction | rfl
  rw [hnote]
  refine ⟨hround.steady h.steady, (hround.follows h.steady.sound).diskOk h.disk, hround.asked h.asked, ?_⟩
  rw [hlog, hbefd, (hround.sound h.steady.sound).2]
  rcases h.log with ⟨h0, hnil, -, hpc₀⟩ | ⟨hpos, earlier, heq, hiff, hne⟩
  · exact .inl ⟨h0, hnil, hpc', .inr (hpc₀.resolve_left hpc.1)⟩
  · exact .inr ⟨hpos, earlier, heq, hiff, fun _ => hne ⟨hpc.2.1, hpc.2.2.2⟩⟩

/-- What is sent of a request is added to the log. -/
theorem Logged.sent {s s' : Session} {l : Ledger} (h : s.Logged l) (hround : Round s s') (pc : s.pc = .feRecv)
    (hlog : s'.fe.log = s.fe.log ++ contents s.forwarded)
    (hpc' : s'.pc ≠ .feRecv ∧ s'.pc ≠ .shutdown → contents s.forwarded ≠ []) : s'.Logged (s.noteRequest l) := by
  have hnote : s.noteRequest l = ⟨l.request ++ contents s.forwarded, l.begun⟩ := by rw [noteRequest, pc]
  rw [hnote]
  refine ⟨hround.steady h.steady, (hround.follows h.steady.sound).diskOk h.disk, hround.asked h.asked, ?_⟩
  rcases h.log with ⟨-, -, hpc, -⟩ | ⟨hpos, earlier, heq, hiff, -⟩
  · exact absurd pc hpc
  · refine .inr ⟨hpos, earlier, ?_, hiff, fun hp hnil => hpc' hp (List.append_eq_nil_iff.mp hnil).2⟩
    rw [hlog, heq, List.append_assoc]

/-- Every round keeps what is in the log. -/
theorem Round.logged {s s' : Session} (h : Round s s') {l : Ledger} (hl : s.Logged l) :
    s'.Logged (s.noteRequest l) := by
  have hround := h
  have hsteady := h.steady hl.steady
  have hdisk := (h.follows hl.steady.sound).diskOk hl.disk
  have hasked := h.asked hl.asked
  obtain ⟨he, hk, -⟩ := pgrMbufRecv_spec hl.steady.sound.fe s.kernel rfl
  have hrelay := hk.trans (pgrMbufRelay_kept he.wf s.recvFe.2.kernel)
  cases h with
  | next pc =>
    have hn : s.noteRequest l = ⟨[], l.begun + 1⟩ := by rw [noteRequest, pc]
    have hlog : s.loopHead.fe.log = s.fe.log := by
      rw [loopHead_eq]
      rfl
    rw [hn]
    refine ⟨hsteady, hdisk, hasked, .inr ⟨Nat.succ_pos _, s.fe.log, ?_, ?_, fun hp => absurd ?_ hp.1⟩⟩
    · rw [hlog, List.append_nil]
    · -- before a request begins, the log is empty just when none has begun since the last redirect
      rcases hl.log with ⟨h0, hnil, -⟩ | ⟨hpos, earlier, heq, -, hne⟩
      · simp [h0, hnil]
      · have hlog : s.fe.log ≠ [] := by
          rw [heq]
          exact List.append_ne_nil_of_right_ne_nil _ (hne (by simp [pc]))
        simp only [hlog, iff_false]
        omega
    · rw [loopHead_eq]
      rfl
  | feFailed pc recv =>
    have hnil : contents s.forwarded = [] := congrArg contents (if_pos recv)
    exact hl.sent hround pc (by rw [hnil, List.append_nil]; exact hk.log) fun hp => absurd rfl hp.2
  | feRefused pc recv | closed pc recv =>
    exact hl.sent hround pc (hl.steady.forwarded recv).log fun hp => absurd rfl hp.2
  | feMore pc recv => exact hl.sent hround pc (hl.steady.forwarded recv).log fun hp => absurd rfl hp.1
  | feLast pc recv send type =>
    exact hl.sent hround pc (hl.steady.forwarded recv).log fun _ =>
      (hl.steady.forwarded recv).ne_nil hl.steady.sound send type
  | beFailed pc | badRouting pc | beRefused pc => exact hl.kept hround rfl rfl (by simp [pc]) nofun
  | draining pc | drained pc => exact hl.kept hround rfl rfl (by simp [pc]) (by simp [pc])
  | replied pc' pc recv error relay type =>
    refine hl.kept hround rfl rfl (by simp [pc]) ?_
    rcases type with ⟨-, rfl⟩ | ⟨-, rfl⟩ | ⟨-, rfl⟩ <;> nofun
  | redirected pc =>
    have hn : s.noteRequest l = ⟨l.request, 0⟩ := by rw [noteRequest, pc]
    rw [hn]
    exact ⟨hsteady, hdisk, hasked, .inl ⟨rfl, rfl, nofun, .inr rfl⟩⟩
  | copyFailed pc => exact hl.kept hround hk.log rfl (by simp [pc]) nofun
  | copyRefused pc => exact hl.kept hround hrelay.log rfl (by simp [pc]) nofun
  | copied pc' pc recv relay type =>
    refine hl.kept hround hrelay.log rfl (by simp [pc]) ?_
    rcases type with ⟨-, rfl⟩ | ⟨-, -, rfl⟩ <;> nofun
  | halted pc =>
    have hn : s.noteRequest l = l := by rw [noteRequest, pc]
    rw [hn]
    exact hl

end Session

/-- The ledger after `n` steps. -/
def ledger (fds : Descriptors) (kernel : Kernel) (n : ℕ) : Ledger :=
  history Session.step Session.noteRequest (Session.start fds kernel) ⟨[], 0⟩ n

/-- **What is resent.** Where every `write` accepts all and the disk does not fail, a redirect
writes to the writer exactly what the current request has sent to the reader, just when it is
the only request that has begun since the session began or a request was last redirected. -/
theorem resent_iff (fds : Descriptors) {kernel : Kernel} (hw : kernel.WritesAll) (hd : kernel.DiskOk) (n : ℕ) :
    let s := Session.step^[n] (Session.start fds kernel)
    let l := ledger fds kernel n
    s.pc = .redirect →
      (s.step.kernel.sent = s.kernel.sent ++ l.request.map (Prod.mk fds.writer) ↔ l.begun = 1) := by
  intro s l pc
  have hl : s.Logged l := history_induction (fun s _ h => s.step_round.logged h) (Session.start_logged fds hw hd) n
  have hfds : s.fds = fds := (Session.run_sound (Session.start_sound fds kernel) n).2
  have hset := hl.steady.sound.setBackend s.fds.frontend_ne_writer.symm
  have hwriter : ({ s with befd := s.fds.writer }.setBackend).fe.outfd = fds.writer :=
    (if_pos (ne_same_fd s.fds.writer_nonneg)).trans (by rw [hfds])
  -- what is resent is the log
  have hstep : s.step.kernel.sent = s.kernel.sent ++ s.fe.log.map (Prod.mk fds.writer) := by
    rcases hres : pgrMbufResend ({ s with befd := s.fds.writer }.setBackend).fe s.kernel with ⟨rc, m, k⟩
    obtain ⟨-, -, he⟩ := pgrMbufResend_spec hset.fe hl.steady.cached hl.disk hl.steady.writes hres
    have hk : s.step.kernel = k := by
      rw [Session.step, pc]
      exact congrArg (fun r : Outcome => r.2.2) hres
    rw [hk, he.sent, hwriter]
    rfl
  rcases hl.log with ⟨-, -, -, hpc | hbefd⟩ | ⟨-, earlier, heq, hiff, -⟩
  · exact absurd (pc.symm.trans hpc) nofun
  · exact absurd ((hl.asked (.inr pc)).symm.trans hbefd) s.fds.reader_ne_writer
  · rw [hstep, hiff, List.append_cancel_left_eq, heq]
    constructor
    · intro h
      have hlen := congrArg List.length h
      rw [List.length_map, List.length_map, List.length_append] at hlen
      exact List.length_eq_zero_iff.mp (by omega)
    · rintro rfl
      rw [List.nil_append]

/-- The first request is refused, and is resent. -/
theorem resent_iff_first :
    let kernel := someKernel (queryMessage [0x69]) (REFUSAL ++ READY) []
    let s := Session.step^[5] (Session.start someDescriptors kernel)
    s.step.kernel.sent = s.kernel.sent ++ (ledger someDescriptors kernel 5).request.map (Prod.mk 5) :=
  (resent_iff someDescriptors (Kernel.eager_writesAll _) (Kernel.eager_diskOk _) 5 (by decide +kernel)).mpr
    (by decide +kernel)

/-- The reader answers a request and refuses the next, and both are resent. -/
theorem not_resent_second :
    ¬ ∀ (fds : Descriptors) (kernel : Kernel) (n : ℕ), kernel.WritesAll → kernel.DiskOk →
      let s := Session.step^[n] (Session.start fds kernel)
      s.pc = .redirect →
        s.step.kernel.sent = s.kernel.sent ++ (ledger fds kernel n).request.map (Prod.mk fds.writer) := by
  intro hall
  have h := hall someDescriptors (someKernel (queryMessage [0x73] ++ queryMessage [0x69])
    (READY ++ REFUSAL ++ READY) [])
    8 (Kernel.eager_writesAll _) (Kernel.eager_diskOk _) (by decide +kernel)
  exact absurd h (by decide +kernel)

end PgRouter.Worker
