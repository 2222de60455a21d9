import PgRouter.Worker.Routing

/-!
# Transactions stay on the writer

From a Query that begins a transaction to one that ends it, everything the client sends goes to
the writer, and nothing is redirected. Where a Query begins a transaction, `in_txn` is set, and
it stays set at the head of the outer loop, in the replies, and in the COPY DATA sub-protocol;
`befd` stays at the writer with it, and only what the reader has been asked is redirected.

The messages of the COPY DATA sub-protocol are relayed without being looked at: a Query among
them begins no transaction (`not_pinned_copy`) and ends none.
-/

namespace PgRouter.Worker

open Foundation Wire

namespace Session

/-- The message ends a transaction. -/
def IsCommit (m : Mbuf) : Prop := pgrMbufMsgtype m = chr 'Q' ∧ queryBegins m COMMIT = true

instance (m : Mbuf) : Decidable (IsCommit m) := inferInstanceAs (Decidable (_ ∧ _))

/-- Enters of a message whether it begins or ends a transaction. -/
def noteMessage (m : Mbuf) (begun : Bool) : Bool :=
  if IsBegin m then true else if IsCommit m then false else begun

/-- Enters whether a transaction has begun and not ended, as the messages of the requests say. -/
def notePinned (s : Session) (pinned : Bool) : Bool :=
  match s.pc with
  | .feRecv => noteMessage s.recvFe.2.fe pinned
  | _ => pinned

/-- Enters whether a transaction has begun and not ended, as all messages of the client say, those of
the COPY DATA sub-protocol included. -/
def noteBegun (s : Session) (begun : Bool) : Bool :=
  match s.pc with
  | .feRecv | .copyRecv => noteMessage s.recvFe.2.fe begun
  | _ => begun

/-! ### The words -/

/-- The text of a message that begins with a word begins with its first character. -/
theorem queryBegins_head {m : Mbuf} {w : Octet} {ws : List Octet} (h : queryBegins m (w :: ws) = true)
    (hlen : ws.length < 6) :
    (tolower (m.buf (m.start + (0 + (if m.buf m.start = 0 then 0 else 1) + 4)))).toNat = (tolower w).toNat := by
  unfold queryBegins at h
  cases hdata : pgrMbufData m 0 (w :: ws).length with
  | none =>
    rw [hdata] at h
    cases h
  | some x =>
    have hx : m.start + (0 + (if m.buf m.start = 0 then 0 else 1) + 4) = x := by
      rw [pgrMbufData_eq (by rw [List.length_cons]; omega)] at hdata
      split_ifs at hdata <;> simp_all
    rw [hdata] at h
    dsimp only at h
    rw [decide_eq_true_eq, slice_cons _ (by rw [List.length_cons]; omega), List.length_cons, strncasecmp] at h
    rw [hx]
    split_ifs at h with hd
    · omega
    · have := not_not.mp fun hne => hd (.inl hne)
      omega

/-- What begins a transaction does not end one. -/
theorem not_isCommit {m : Mbuf} (h : IsBegin m) : ¬ IsCommit m := by
  intro hc
  have hb := queryBegins_head h.2 (by decide)
  rw [queryBegins_head hc.2 (by decide)] at hb
  exact absurd hb (by decide)

/-- Where there is no message, nothing begins or ends. -/
theorem noteMessage_of_lt {m : Mbuf} (h : m.available < 5) (begun : Bool) : noteMessage m begun = begun := by
  have hb : ¬ IsBegin m := not_isBegin_of_lt h
  have hc : ¬ IsCommit m := fun hc => by
    have := hc.2
    rw [queryBegins_of_lt h (by decide) (by decide)] at this
    cases this
  rw [noteMessage, if_neg hb, if_neg hc]

/-! ### A transaction is pinned -/

/-- `in_txn` is set as the message says. -/
theorem route_inTxn_eq (s : Session) : s.route.inTxn = noteMessage s.fe s.inTxn := by
  unfold route noteMessage
  by_cases htype : pgrMbufMsgtype s.fe = chr 'Q'
  · rw [if_pos htype]
    by_cases hbegin : queryBegins s.fe BEGIN = true
    · have hb : IsBegin s.fe := ⟨htype, hbegin⟩
      have hc : ¬ queryBegins s.beginTxn.fe COMMIT = true := fun h => not_isCommit hb ⟨htype, h⟩
      rw [if_pos hb, if_pos hbegin]
      dsimp only
      rw [if_neg hc]
      rfl
    · have hb : ¬ IsBegin s.fe := fun h => hbegin h.2
      by_cases hcommit : queryBegins s.fe COMMIT = true
      · simp [hbegin, hb, hcommit, show IsCommit s.fe from ⟨htype, hcommit⟩]
      · have hc : ¬ IsCommit s.fe := fun h => hcommit h.2
        simp [hbegin, hb, hcommit, hc]
  · have hb : ¬ IsBegin s.fe := fun h => htype h.1
    have hc : ¬ IsCommit s.fe := fun h => htype h.1
    simp [htype, hb, hc]

/-- A read that fails leaves no message. -/
theorem recvFe_failed {s : Session} (h : s.Sound) (recv : s.recvFe.1 < 0) : s.recvFe.2.fe.available < 5 := by
  obtain ⟨-, -, ⟨-, hrc⟩ | ⟨-, hrc, -⟩ | ⟨hlt, -, -⟩⟩ := pgrMbufRecv_spec h.fe s.kernel rfl
  · exact absurd recv (by rw [show s.recvFe.1 = _ from hrc]; exact not_lt.mpr (Int.natCast_nonneg _))
  · exact absurd recv (by rw [show s.recvFe.1 = _ from hrc]; decide)
  · exact hlt

/-- Only a message of a request begins or ends a transaction. -/
theorem notePinned_of_ne {s : Session} (pc : s.pc ≠ .feRecv) (pinned : Bool) : s.notePinned pinned = pinned := by
  unfold notePinned
  split
  · contradiction
  · rfl

/-- Every round enters in `in_txn` what the messages say. -/
theorem Round.inTxn {s s' : Session} (h : Round s s') (hs : s.Sound) : s'.inTxn = s.notePinned s.inTxn := by
  have hsent : s.recvFe.2.route.inTxn = noteMessage s.recvFe.2.fe s.inTxn := s.recvFe.2.route_inTxn_eq
  cases h with
  | next pc =>
    rw [loopHead_eq]
    exact (notePinned_of_ne (by rw [pc]; decide) _).symm
  | feFailed pc recv =>
    rw [notePinned, pc]
    exact (noteMessage_of_lt (recvFe_failed hs recv) _).symm
  | feRefused pc => rw [notePinned, pc]; exact hsent
  | closed pc => rw [notePinned, pc]; exact hsent
  | feMore pc => rw [notePinned, pc]; exact hsent
  | feLast pc => rw [notePinned, pc]; exact hsent
  | beFailed pc | badRouting pc | beRefused pc | replied _ pc | draining pc | drained pc | redirected pc
  | copyFailed pc | copyRefused pc | copied _ pc | halted pc =>
    exact (notePinned_of_ne (by rw [pc]; decide) _).symm

/-- The state of a session beside what its messages say. -/
structure Pinned (fds : Descriptors) (s : Session) (pinned : Bool) : Prop where
  /-- The backends are wired. -/
  wired : ∃ opened, s.Wired opened
  /-- The descriptors are those of the session. -/
  fds : s.fds = fds
  /-- `in_txn` says what the messages say. -/
  inTxn : s.inTxn = pinned

theorem start_pinned (fds : Descriptors) (kernel : Kernel) : Pinned fds (start fds kernel) false where
  wired := ⟨false, start_wired fds kernel⟩
  fds := rfl
  inTxn := rfl

/-- Every round keeps it. -/
theorem Round.pinned {s s' : Session} (h : Round s s') {fds : Descriptors} {pinned : Bool}
    (hp : s.Pinned fds pinned) : s'.Pinned fds (s.notePinned pinned) := by
  obtain ⟨opened, hw⟩ := hp.wired
  exact ⟨⟨_, h.wired hw⟩, (h.sound hw.sound).2.trans hp.fds, hp.inTxn ▸ h.inTxn hw.sound⟩

end Session

/-- Whether a transaction has begun and not ended after `n` steps, as the messages of the requests
say. -/
def pinned (fds : Descriptors) (kernel : Kernel) (n : ℕ) : Bool :=
  history Session.step Session.notePinned (Session.start fds kernel) false n

/-- Whether a transaction has begun and not ended after `n` steps, as all messages of the client say. -/
def begun (fds : Descriptors) (kernel : Kernel) (n : ℕ) : Bool :=
  history Session.step Session.noteBegun (Session.start fds kernel) false n

/-- **Pinning.** A message of a request that begins a transaction, and every message of a request
after it up to and including the one that ends the transaction, is sent to the writer. In between
everything is: `befd` and the output descriptor of `fe` are the writer, in the replies and in the
COPY DATA sub-protocol too, and the session does not drain, redirect, resend, or reset. -/
theorem transaction_pinned (fds : Descriptors) (kernel : Kernel) (n : ℕ) :
    let s := Session.step^[n] (Session.start fds kernel)
    (s.pc = .feRecv → pinned fds kernel n = true ∨ Session.IsBegin s.recvFe.2.fe →
      s.recvFe.2.route.befd = fds.writer ∧ s.recvFe.2.route.fe.outfd = fds.writer) ∧
    (pinned fds kernel n = true →
      s.befd = fds.writer ∧ s.fe.outfd = fds.writer ∧ s.pc ≠ .drain ∧ s.pc ≠ .redirect) := by
  intro s
  have hp : s.Pinned fds (pinned fds kernel n) :=
    history_induction (fun s _ h => s.step_round.pinned h) (Session.start_pinned fds kernel) n
  obtain ⟨opened, hw⟩ := hp.wired
  have hwriter : pinned fds kernel n = true → s.befd = fds.writer := fun h =>
    (hw.txn (hp.inTxn.trans h)).trans (by rw [hp.fds])
  refine ⟨fun _ h => ?_, fun h => ?_⟩
  · have hbefd : s.recvFe.2.route.befd = fds.writer := by
      rw [Session.route_befd]
      split
      · exact congrArg Descriptors.writer hp.fds
      · exact hwriter (h.resolve_right ‹_›)
    have hrecv : s.recvFe.2.fe.outfd = s.recvFe.2.befd := (pgrMbufRecv_safe hw.sound.fe s.kernel).outfd.trans hw.out
    exact ⟨hbefd, (Session.route_out hrecv).trans hbefd⟩
  · have hask : ¬ (s.pc = .drain ∨ s.pc = .redirect) := fun hpc =>
      fds.reader_ne_writer (by rw [← hwriter h, hw.asked hpc, hp.fds])
    exact ⟨hwriter h, hw.out.trans (hwriter h), fun hpc => hask (.inl hpc), fun hpc => hask (.inr hpc)⟩

/-- The client begins a transaction. -/
def beginKernel : Kernel := someKernel (queryMessage BEGIN) [] []

/-- It goes to the writer, and so does what follows. -/
theorem transaction_pinned_begin :
    (Session.step^[1] (Session.start someDescriptors beginKernel)).recvFe.2.route.fe.outfd = 5 ∧
      (Session.step^[2] (Session.start someDescriptors beginKernel)).fe.outfd = 5 :=
  ⟨((transaction_pinned someDescriptors beginKernel 1).1 (by decide +kernel) (.inr (by decide +kernel))).2,
    ((transaction_pinned someDescriptors beginKernel 2).2 (by decide +kernel)).2.1⟩

/-- A CopyInResponse message. -/
def COPY_IN : List Octet := [0x47, 0, 0, 0, 7, 0, 0, 0]

/-- The client asks to copy, and sends a Query in the place of the data. -/
def copyKernel : Kernel := someKernel (queryMessage [0x63, 0x6f, 0x70, 0x79] ++ queryMessage BEGIN) COPY_IN []

/-- **A Query in the COPY DATA sub-protocol pins nothing.** The Query that begins a transaction is
relayed to the reader, and what follows goes to the reader too. -/
theorem not_pinned_copy :
    ¬ ∀ (fds : Descriptors) (kernel : Kernel) (n : ℕ),
      let s := Session.step^[n] (Session.start fds kernel)
      (s.pc = .feRecv → begun fds kernel n = true ∨ Session.IsBegin s.recvFe.2.fe →
        s.recvFe.2.route.befd = fds.writer ∧ s.recvFe.2.route.fe.outfd = fds.writer) ∧
      (s.pc = .copyRecv → begun fds kernel n = true ∨ Session.IsBegin s.recvFe.2.fe →
        s.befd = fds.writer ∧ s.fe.outfd = fds.writer) ∧
      (begun fds kernel n = true →
        s.befd = fds.writer ∧ s.fe.outfd = fds.writer ∧ s.pc ≠ .drain ∧ s.pc ≠ .redirect) := by
  intro hall
  have h := (hall someDescriptors copyKernel 3).2.1 (by decide +kernel) (.inr (by decide +kernel))
  exact absurd h.1 (by decide +kernel)

end PgRouter.Worker
