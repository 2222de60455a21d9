import PgRouter.Worker.Traffic
import PgRouter.Worker.Writes

/-!
# What becomes of the client's octets

What the client sends is read into `fe`, and passed on to a backend: message by message in
the requests, and in the COPY DATA sub-protocol. Between the two it waits in the buffer, or
in the kernel. `pgr_mbuf_reset` empties the buffer, and with it whatever waits there.

## What is proved

Everything that is passed on goes to the reader or to the writer (`account_backend`). Where every `write`
accepts all, what has been passed on and what is still waiting are together what the client has sent, nothing
missing and in order, just when nothing was waiting in the buffer when a request was redirected (`conserved_iff`).
-/

namespace PgRouter.Worker

open Foundation Wire

/-- What has become of the client's octets. -/
structure Account where
  /-- What has been passed on, and to whom. -/
  passed : List (Fd × Octet)
  /-- What has been dropped. -/
  lost : List Octet

namespace Session

/-- What a round passes on of the client's octets. -/
def passedOn (s : Session) : List (Fd × Octet) :=
  match s.pc with
  | .feRecv => s.forwarded
  | .copyRecv => s.copied
  | _ => []

/-- What a round drops: what waits in the buffer when a request is redirected. -/
def dropped (s : Session) : List Octet := if s.pc = .redirect then s.fe.window else []

/-- Keeps the account. -/
def noteAccount (s : Session) (a : Account) : Account := ⟨a.passed ++ s.passedOn, a.lost ++ s.dropped⟩

/-- Every octet that leaves the pending stream of the client is passed on or dropped. -/
theorem Round.conserves {s s' : Session} (h : Round s s') (hs : s.Steady) :
    contents s.passedOn ++ (s.dropped ++ pending s'.fe s'.kernel) = pending s.fe s.kernel := by
  have hother : ∀ {m : Mbuf} {k : Kernel}, Safe s.be s.kernel m k → pending s.fe k = pending s.fe s.kernel := by
    intro m k hsafe
    rw [pending, pending, hs.sound.infd, hsafe.other _ hs.sound.source.symm]
  have hbe := pgrMbufRecv_safe hs.sound.be s.kernel
  have hdrain := drainRound_safe (chr 'Z') hs.sound.be s.kernel
  obtain ⟨he, -⟩ := pgrMbufRecv_spec hs.sound.fe s.kernel rfl
  cases h with
  | next pc =>
    rw [passedOn, dropped, pc, loopHead_eq]
    rfl
  | feFailed pc recv =>
    rw [passedOn, dropped, pc, Session.forwarded, if_pos recv]
    exact he.pending
  | feRefused pc recv | feMore pc recv | feLast pc recv =>
    rw [passedOn, dropped, pc]
    exact (hs.forwarded recv).pending
  | closed pc recv =>
    have hterm : s.recvFe.2.route.sendFe.2.terminate.kernel.unread = s.recvFe.2.route.sendFe.2.kernel.unread :=
      (writeLoop_unread _ _ _).trans (writeLoop_unread _ _ _)
    rw [passedOn, dropped, pc, ← (hs.forwarded recv).pending, pending, hterm]
    rfl
  | beFailed pc | badRouting pc =>
    rw [passedOn, dropped, pc]
    exact hother hbe
  | beRefused pc | replied _ pc =>
    rw [passedOn, dropped, pc]
    exact hother (hbe.trans (pgrMbufRelay_safe hbe.wf _))
  | draining pc round | drained pc round =>
    rw [round] at hdrain
    rw [passedOn, dropped, pc]
    exact hother hdrain
  | redirected pc =>
    have hset := hs.sound.setBackend s.fds.frontend_ne_writer.symm
    obtain ⟨hr, w, hwrote⟩ := pgrMbufResend_safe hset.fe s.kernel
    have hin : s.redirect.fe.infd = s.fe.infd := hr.infd
    have hunread : s.redirect.kernel.unread = s.kernel.unread := hwrote.unread
    have hwin : s.redirect.fe.window = [] := slice_self _ _
    rw [passedOn, dropped, pc, if_pos rfl, pending, pending, hwin, hin, hunread]
    rfl
  | copyFailed pc recv =>
    rw [passedOn, dropped, pc, Session.copied, if_pos recv]
    exact he.pending
  | copyRefused pc recv | copied _ pc recv =>
    rw [passedOn, dropped, pc]
    exact hs.copied recv
  | halted pc =>
    rw [passedOn, dropped, pc]
    rfl

/-- The account balances: with what is pending it makes up the `input`. -/
structure Balanced (input : List Octet) (s : Session) (a : Account) : Prop where
  /-- Every `write` accepts all. -/
  steady : s.Steady
  /-- Every octet is accounted for. -/
  count : (contents a.passed).length + (pending s.fe s.kernel).length + a.lost.length = input.length
  /-- If none is lost, none is missing. -/
  whole : a.lost = [] → contents a.passed ++ pending s.fe s.kernel = input

theorem Round.balanced {s s' : Session} (h : Round s s') {input : List Octet} {a : Account} (hb : s.Balanced input a) :
    s'.Balanced input (s.noteAccount a) := by
  have hc := h.conserves hb.steady
  refine ⟨h.steady hb.steady, ?_, fun hlost => ?_⟩
  · have hcount := hb.count
    rw [← hc] at hcount
    simp only [noteAccount, contents_append, List.length_append] at hcount ⊢
    omega
  · obtain ⟨hlost, hdropped⟩ := List.append_eq_nil_iff.mp hlost
    have hwhole := hb.whole hlost
    rw [← hc, hdropped, List.nil_append, ← List.append_assoc] at hwhole
    rw [noteAccount, contents_append]
    exact hwhole

/-- A round passes the client's octets on to a backend. -/
theorem passedOn_backend {s : Session} {opened : Bool} (hw : s.Wired opened) (ha : s.Aimed) :
    ∀ p ∈ s.passedOn, p.1 = s.fds.reader ∨ p.1 = s.fds.writer := by
  have hin : s.recvFe.2.fe.outfd = s.befd := (pgrMbufRecv_safe hw.sound.fe s.kernel).outfd.trans hw.out
  -- what an operation adds to the trace is for the output descriptor of its buffer
  have hbackend : ∀ {m m' : Mbuf} {k k' : Kernel} {u w : List Octet}, Effect m k u w m' k' →
      m.outfd = s.fds.reader ∨ m.outfd = s.fds.writer →
      ∀ p ∈ newlySent k k', p.1 = s.fds.reader ∨ p.1 = s.fds.writer := by
    intro m m' k k' u w he hout p hp
    rw [newlySent_eq he.sent] at hp
    obtain ⟨o, -, rfl⟩ := List.mem_map.mp hp
    exact hout
  intro p hp
  unfold passedOn at hp
  split at hp
  case h_1 pc =>
    unfold Session.forwarded at hp
    split_ifs at hp
    · cases hp
    · obtain ⟨u, w, he, -⟩ := pgrMbufSend_effect hw.sound.recvFe.route.fe s.recvFe.2.route.kernel
      rw [← route_kernel s.recvFe.2] at hp
      refine hbackend he ?_ p hp
      rw [route_out hin]
      exact ha.route (by rw [pc]; decide)
  case h_2 pc =>
    unfold Session.copied at hp
    split_ifs at hp
    · cases hp
    · by_cases hav : 5 ≤ s.recvFe.2.fe.available
      · obtain ⟨u, w, he, -⟩ := pgrMbufRelay_spec hw.sound.recvFe.fe hav (k := s.recvFe.2.kernel) rfl
        refine hbackend he ?_ p hp
        rw [hin]
        exact ha.resolve_left (by rw [pc]; decide)
      · have hshort : s.recvFe.2.relayFe = s.recvFe.2.withFe (1, s.recvFe.2.fe, s.recvFe.2.kernel) := by
          rw [relayFe, pgrMbufRelay_short (by omega)]
        rw [hshort] at hp
        rw [show (s.recvFe.2.withFe (1, s.recvFe.2.fe, s.recvFe.2.kernel)).2.kernel = s.recvFe.2.kernel from rfl,
          newlySent_self] at hp
        cases hp
  case h_3 => cases hp

end Session

/-- The account after `n` steps. -/
def account (fds : Descriptors) (kernel : Kernel) (n : ℕ) : Account :=
  history Session.step Session.noteAccount (Session.start fds kernel) ⟨[], []⟩ n

/-- What is passed on goes to a backend. -/
theorem account_backend (fds : Descriptors) (kernel : Kernel) (n : ℕ) :
    ∀ p ∈ (account fds kernel n).passed, p.1 = fds.reader ∨ p.1 = fds.writer := by
  have hinv : (∃ opened, (Session.step^[n] (Session.start fds kernel)).Wired opened) ∧
      (Session.step^[n] (Session.start fds kernel)).Aimed ∧
      (Session.step^[n] (Session.start fds kernel)).fds = fds ∧
      ∀ p ∈ (account fds kernel n).passed, p.1 = fds.reader ∨ p.1 = fds.writer := by
    refine history_induction
      (P := fun (s : Session) (a : Account) => (∃ opened, s.Wired opened) ∧ s.Aimed ∧ s.fds = fds ∧
        ∀ p ∈ a.passed, p.1 = fds.reader ∨ p.1 = fds.writer) ?_ ?_ n
    · rintro s a ⟨⟨opened, hw⟩, ha, rfl, hpassed⟩
      have hround := s.step_round
      refine ⟨⟨_, hround.wired hw⟩, hround.aimed hw ha, (hround.sound hw.sound).2, fun p hp => ?_⟩
      exact (List.mem_append.mp hp).elim (hpassed p) (Session.passedOn_backend hw ha p)
    · exact ⟨⟨_, Session.start_wired fds kernel⟩, .inl rfl, rfl, fun _ hp => absurd hp List.not_mem_nil⟩
  exact hinv.2.2.2

/-- Nothing is lost just when no round drops anything. -/
theorem account_lost_eq_nil_iff (fds : Descriptors) (kernel : Kernel) (n : ℕ) :
    (account fds kernel n).lost = [] ↔ ∀ i < n, (Session.step^[i] (Session.start fds kernel)).dropped = [] := by
  induction n with
  | zero => simp [account, history]
  | succ n ih =>
    have hsucc : (account fds kernel (n + 1)).lost =
        (account fds kernel n).lost ++ (Session.step^[n] (Session.start fds kernel)).dropped := rfl
    rw [hsucc, List.append_eq_nil_iff, ih, Nat.forall_lt_succ_right]

/-- Every octet of the client has been passed on to a backend, in order and without gaps, or is pending. -/
def Conserved (fds : Descriptors) (kernel : Kernel) (n : ℕ) : Prop :=
  let s := Session.step^[n] (Session.start fds kernel)
  (∀ p ∈ (account fds kernel n).passed, p.1 = fds.reader ∨ p.1 = fds.writer) ∧
    contents (account fds kernel n).passed ++ pending s.fe s.kernel = kernel.unread fds.frontend

instance (fds : Descriptors) (kernel : Kernel) (n : ℕ) : Decidable (Conserved fds kernel n) :=
  inferInstanceAs (Decidable (_ ∧ _))

/-- **What becomes of the client's octets.** Where every `write` accepts all, every octet of the client
has been passed on to a backend, or is pending, just when nothing was waiting in the buffer when a
request was redirected. -/
theorem conserved_iff (fds : Descriptors) {kernel : Kernel} (hw : kernel.WritesAll) (n : ℕ) :
    let run := fun i => Session.step^[i] (Session.start fds kernel)
    Conserved fds kernel n ↔ ∀ i < n, (run i).pc = .redirect → (run i).fe.window = [] := by
  intro run
  have hstart : (Session.start fds kernel).Balanced (kernel.unread fds.frontend) ⟨[], []⟩ := by
    have hp : pending (Session.start fds kernel).fe (Session.start fds kernel).kernel = kernel.unread fds.frontend := by
      rw [pending, (Session.start_sound fds kernel).infd]
      rfl
    exact ⟨Session.start_steady fds hw, by rw [hp]; simp, fun _ => hp⟩
  have hb : (run n).Balanced (kernel.unread fds.frontend) (account fds kernel n) :=
    history_induction (fun s _ h => s.step_round.balanced h) hstart n
  have hdropped : ∀ s : Session, s.dropped = [] ↔ (s.pc = .redirect → s.fe.window = []) := by
    intro s
    unfold Session.dropped
    split <;> simp_all
  have hlost : (account fds kernel n).lost = [] ↔ ∀ i < n, (run i).pc = .redirect → (run i).fe.window = [] := by
    rw [account_lost_eq_nil_iff]
    exact forall₂_congr fun i _ => hdropped (run i)
  rw [← hlost]
  constructor
  · intro h
    have hwhole : contents (account fds kernel n).passed ++ pending (run n).fe (run n).kernel =
        kernel.unread fds.frontend := h.2
    have hcount := hb.count
    rw [← hwhole, List.length_append] at hcount
    exact List.length_eq_zero_iff.mp (by omega)
  · intro h
    exact ⟨account_backend fds kernel n, hb.whole h⟩

/-- A request is refused and resent, and nothing else was waiting. -/
theorem conserved_iff_alone :
    let kernel := someKernel (queryMessage [0x69]) (REFUSAL ++ READY) READY
    Conserved someDescriptors kernel 8 :=
  (conserved_iff someDescriptors (Kernel.eager_writesAll _) 8).mpr (by decide +kernel)

/-- A second request waits in the buffer when the first is refused, and is lost. -/
theorem not_conserved_pipelined :
    ¬ ∀ (fds : Descriptors) (kernel : Kernel) (n : ℕ), kernel.WritesAll →
      (Session.step^[n] (Session.start fds kernel)).pc ≠ .shutdown → Conserved fds kernel n := by
  intro hall
  have h := hall someDescriptors (someKernel (queryMessage [0x69] ++ queryMessage [0x73]) (REFUSAL ++ READY) READY) 6
    (Kernel.eager_writesAll _) (by decide +kernel)
  exact absurd h (by decide +kernel)

end PgRouter.Worker
