import PgRouter.Wire.Drain
import PgRouter.Worker.Writes

/-!
# Does a session end?

A worker serves one client at a time, and serves no other before the session ends. The client and the backends send
what they like, and each of them stops some time.

## What is proved

No `read` fails, but how much it delivers is up to the kernel, as is what becomes of each `write`. A session ends
unless it is trapped: at a message whose first four octets are all `0`, so that its size is `0` and nothing of it is
taken from the stream; or while a reply is drained that stops in the first octets of a message (`ends_iff`). A client
that is let in traps its worker with five octets (`captured`).
-/

namespace PgRouter.Worker

open Foundation Wire

/-! ### A message of no size -/

/-- A message of which there are five octets has no size just when the first four of them are `0`. -/
theorem size_eq_zero_iff {m : Mbuf} (h : m.Wf) (five : 5 ≤ m.available) :
    size m = 0 ↔ List.replicate 4 0 <+: m.window := by
  rw [← frameSize_window h five]
  have hlen := length_window m
  rcases hw : m.window with _ | ⟨a, _ | ⟨b, _ | ⟨c, _ | ⟨d, _ | ⟨e, l⟩⟩⟩⟩⟩ <;> rw [hw] at hlen <;>
    simp only [List.length_nil, List.length_cons] at hlen <;> try omega
  have hzero : ∀ o : Octet, 0 = o ↔ o.toNat = 0 := fun o => eq_comm.trans UInt8.toNat_inj.symm
  simp only [frameSize, List.replicate, List.cons_prefix_cons, List.nil_prefix, and_true]
  split_ifs with ha
  · rw [be24, hzero b, hzero c, hzero d]
    exact ⟨fun h => ⟨ha.symm, by omega⟩, fun h => by omega⟩
  · exact ⟨False.elim, fun h => absurd h.1.symm ha⟩

/-- Where there are five octets, no more are received. -/
theorem pgrMbufRecv_of_five {m : Mbuf} (five : 5 ≤ m.available) (k : Kernel) :
    pgrMbufRecv m k = ((m.available : ℤ), m, k) := by
  rw [pgrMbufRecv, if_neg (by omega)]

section

variable {m : Mbuf} (five : 5 ≤ m.available) (empty : size m = 0)

include five empty

/-- It begins with `0`. -/
theorem buf_of_empty : m.buf m.start = 0 := by
  by_contra h0
  rw [size, if_neg (by omega), if_neg h0] at empty
  exact absurd empty (Nat.succ_ne_zero _)

/-- It is none of the messages that the loops look for. -/
theorem msgtype_of_empty {c : Char} (hc : 3 < chr c) : pgrMbufMsgtype m ≠ chr c := fun h =>
  ne_zero_of_msgtype h hc (buf_of_empty five empty)

/-- Sending it does nothing, and succeeds. -/
theorem pgrMbufSend_of_empty (k : Kernel) : pgrMbufSend m k = (0, m, k) := by
  rw [pgrMbufSend, if_neg (by omega), empty, sendLoop, if_neg (by omega)]
  rfl

/-- So does relaying it. -/
theorem pgrMbufRelay_of_empty (k : Kernel) : pgrMbufRelay m k = (0, m, k) := by
  rw [pgrMbufRelay, if_neg (by omega), empty, relayLoop, if_neg (by omega)]
  rfl

end

namespace Session

variable {s s' : Session} {opened : Bool}

/-- What holds at every step. -/
structure Running (s : Session) : Prop where
  /-- The three parts of the state are wired. -/
  wired : ∃ opened, s.Wired opened
  /-- The request goes to one of the backends. -/
  aimed : s.Aimed
  /-- No `read` fails. -/
  reads : s.kernel.ReadsOk

/-- The session gets no further. -/
inductive Trapped (s : Session) : Prop
  /-- The message of the client has no size. -/
  | client (pc : s.pc = .feRecv ∨ s.pc = .copyRecv) (five : 5 ≤ s.recvFe.2.fe.available)
      (empty : size s.recvFe.2.fe = 0)
  /-- The message of the backend has no size. -/
  | backend (pc : s.pc = .beRecv) (five : 5 ≤ s.recvBe.2.be.available) (empty : size s.recvBe.2.be = 0)
  /-- Nothing can be discarded, and nothing can be received. -/
  | drain (pc : s.pc = .drain) (found : 0 ≤ pgrMbufMsgtype s.be) (other : pgrMbufMsgtype s.be ≠ chr 'Z')
      (nothing : size s.be = 0) (stuck : 5 ≤ s.be.available ∨ s.be.fill = s.be.len ∨ s.kernel.unread s.be.infd = [])

/-! ### A trapped session stays where it is -/

theorem feRecv_of_empty (five : 5 ≤ s.recvFe.2.fe.available) (empty : size s.recvFe.2.fe = 0) (recv : 0 ≤ s.recvFe.1) :
    s.feRecv = s.recvFe.2.goto .feRecv := by
  have hQ := msgtype_of_empty five empty (c := 'Q') (by decide)
  have hroute : s.recvFe.2.route = s.recvFe.2 := if_neg hQ
  unfold feRecv
  simp only
  rw [if_neg (not_lt.mpr recv), hroute, sendFe, pgrMbufSend_of_empty five empty]
  simp only [withFe, ne_eq, not_true_eq_false, if_false]
  rw [if_neg (msgtype_of_empty five empty (by decide)), if_pos ⟨hQ, msgtype_of_empty five empty (by decide)⟩]

theorem copyRecv_of_empty (five : 5 ≤ s.recvFe.2.fe.available) (empty : size s.recvFe.2.fe = 0)
    (recv : 0 ≤ s.recvFe.1) :
    s.copyRecv = s.recvFe.2.goto .copyRecv := by
  unfold copyRecv
  simp only
  rw [if_neg (not_lt.mpr recv), relayFe, pgrMbufRelay_of_empty five empty]
  simp only [withFe, ne_eq, not_true_eq_false, if_false]
  rw [if_pos ⟨msgtype_of_empty five empty (by decide), msgtype_of_empty five empty (by decide)⟩]

theorem beRecv_of_empty (five : 5 ≤ s.recvBe.2.be.available) (empty : size s.recvBe.2.be = 0) (recv : 0 ≤ s.recvBe.1) :
    s.beRecv = s.recvBe.2.goto .beRecv := by
  have herror : pgrMbufIserror s.recvBe.2.be (some BAD_ROUTING) = 1 := if_pos (msgtype_of_empty five empty (by decide))
  unfold beRecv
  simp only
  rw [if_neg (not_lt.mpr recv), herror, if_neg (fun h => absurd h.1 one_ne_zero), relayBe,
    pgrMbufRelay_of_empty five empty]
  simp only [withBe, ne_eq, not_true_eq_false, if_false]
  rw [if_neg (msgtype_of_empty five empty (by decide)), if_pos (msgtype_of_empty five empty (by decide))]

/-- Five octets have been received without failure. -/
theorem recvFe_of_five (hs : s.Sound) (five : 5 ≤ s.recvFe.2.fe.available) : 0 ≤ s.recvFe.1 := by
  obtain ⟨-, -, ⟨-, hrc⟩ | ⟨hlt, -⟩ | ⟨hlt, -⟩⟩ := pgrMbufRecv_spec hs.fe s.kernel rfl
  · exact hrc.ge.trans' (Int.natCast_nonneg _)
  · exact absurd five (not_le.mpr hlt)
  · exact absurd five (not_le.mpr hlt)

theorem recvBe_of_five (hs : s.Sound) (five : 5 ≤ s.recvBe.2.be.available) : 0 ≤ s.recvBe.1 := by
  obtain ⟨-, -, ⟨-, hrc⟩ | ⟨hlt, -⟩ | ⟨hlt, -⟩⟩ := pgrMbufRecv_spec hs.be s.kernel rfl
  · exact hrc.ge.trans' (Int.natCast_nonneg _)
  · exact absurd five (not_le.mpr hlt)
  · exact absurd five (not_le.mpr hlt)

/-- **A trapped session** is trapped after a step, and has not ended. -/
theorem Trapped.step (h : s.Trapped) (hs : s.Sound) (hr : s.kernel.ReadsOk) :
    s.step.Trapped ∧ s.step.pc ≠ .shutdown := by
  cases h with
  | client pc five empty =>
    have hrecv := recvFe_of_five hs five
    have hagain : ∀ pc, (s.recvFe.2.goto pc).recvFe.2.fe = s.recvFe.2.fe := fun pc => by
      change (pgrMbufRecv s.recvFe.2.fe s.recvFe.2.kernel).2.1 = s.recvFe.2.fe
      rw [pgrMbufRecv_of_five five]
    rcases pc with pc | pc
    · have hstep : s.step = s.recvFe.2.goto .feRecv := by
        rw [Session.step, pc]
        exact feRecv_of_empty five empty hrecv
      rw [hstep]
      exact ⟨.client (.inl rfl) (by rwa [hagain]) (by rwa [hagain]), fun h => by cases h⟩
    · have hstep : s.step = s.recvFe.2.goto .copyRecv := by
        rw [Session.step, pc]
        exact copyRecv_of_empty five empty hrecv
      rw [hstep]
      exact ⟨.client (.inr rfl) (by rwa [hagain]) (by rwa [hagain]), fun h => by cases h⟩
  | backend pc five empty =>
    have hagain : (s.recvBe.2.goto .beRecv).recvBe.2.be = s.recvBe.2.be := by
      change (pgrMbufRecv s.recvBe.2.be s.recvBe.2.kernel).2.1 = s.recvBe.2.be
      rw [pgrMbufRecv_of_five five]
    have hstep : s.step = s.recvBe.2.goto .beRecv := by
      rw [Session.step, pc]
      exact beRecv_of_empty five empty (recvBe_of_five hs five)
    rw [hstep]
    exact ⟨.backend rfl (by rwa [hagain]) (by rwa [hagain]), fun h => by cases h⟩
  | drain pc found other nothing stuck =>
    obtain ⟨k', hround, hunread, -⟩ := drainStep_stalls hs.be hr found other nothing stuck
    have hstep : s.step = { s with kernel := k' } := by
      rw [Session.step, pc]
      simp only [Session.drain]
      rw [show drainRound (chr 'Z') s.be s.kernel = .ok (s.be, k') from hround, pc]
    rw [hstep]
    exact ⟨.drain pc found other nothing (by rwa [hunread]), by rw [pc]; decide⟩

/-! ### A session that is not trapped gets on -/

/-- The octets that are in the buffers and those that are still to be read. -/
def left (s : Session) : ℕ :=
  s.fe.available + s.be.available + (s.kernel.unread s.fds.frontend).length + (s.kernel.unread s.fds.reader).length +
    (s.kernel.unread s.fds.writer).length

/-- How many steps may follow in which nothing is taken from a stream. -/
def idle (s : Session) : ℕ :=
  match s.pc with
  | .loopHead => 1
  | .feRecv => 0
  | .beRecv => if s.befd = s.fds.reader then 4 else 0
  | .drain => 2 + if s.be.available < 5 then 1 else 0
  | .redirect => 1
  | .copyRecv => 0
  | .shutdown => 0

theorem idle_le (s : Session) : s.idle ≤ 4 := by
  unfold idle
  split <;> try split
  all_goals decide

/-- What is left, and then the steps that take nothing. -/
def measure (s : Session) : ℕ := 5 * s.left + s.idle

/-- What an operation takes from the stream of its buffer. -/
theorem available_effect {m m' : Mbuf} {k k' : Kernel} {u w : List Octet} (h : Effect m k u w m' k') :
    u.length + (m'.available + (k'.unread m.infd).length) = m.available + (k.unread m.infd).length := by
  rw [← length_pending, ← h.pending, List.length_append, length_pending, h.infd]

/-- What an operation on `fe` takes. -/
theorem left_withFe (hs : s.Sound) {fe : Mbuf} {k : Kernel} {u w : List Octet} (h : Effect s.fe s.kernel u w fe k) :
    u.length + left { s with fe := fe, kernel := k } = s.left := by
  have havailable := available_effect h
  have hreader := h.other s.fds.reader (hs.infd ▸ s.fds.frontend_ne_reader.symm)
  have hwriter := h.other s.fds.writer (hs.infd ▸ s.fds.frontend_ne_writer.symm)
  rw [hs.infd] at havailable
  simp only [left, hreader, hwriter]
  omega

/-- What an operation on `be` takes. -/
theorem left_withBe (hs : s.Sound) (hbackend : s.be.infd = s.fds.reader ∨ s.be.infd = s.fds.writer) {be : Mbuf}
    {k : Kernel} {u w : List Octet} (h : Effect s.be s.kernel u w be k) :
    u.length + left { s with be := be, kernel := k } = s.left := by
  have havailable := available_effect h
  have hfrontend := h.other s.fds.frontend hs.source.symm
  simp only [left, hfrontend]
  rcases hbackend with hin | hin
  · rw [hin] at havailable
    have hwriter := h.other s.fds.writer (hin ▸ s.fds.reader_ne_writer.symm)
    rw [hwriter]
    omega
  · rw [hin] at havailable
    have hreader := h.other s.fds.reader (hin ▸ s.fds.reader_ne_writer)
    rw [hreader]
    omega

theorem recvFe_left (hs : s.Sound) : s.recvFe.2.left = s.left := by
  have h := left_withFe hs (pgrMbufRecv_spec hs.fe s.kernel rfl).1
  rwa [List.length_nil, Nat.zero_add] at h

theorem recvBe_left (hs : s.Sound) (hbackend : s.be.infd = s.fds.reader ∨ s.be.infd = s.fds.writer) :
    s.recvBe.2.left = s.left := by
  have h := left_withBe hs hbackend (pgrMbufRecv_spec hs.be s.kernel rfl).1
  rwa [List.length_nil, Nat.zero_add] at h

/-- Setting the output descriptor of `fe` leaves the message alone. -/
theorem route_message (s : Session) :
    s.route.fe.available = s.fe.available ∧ size s.route.fe = size s.fe ∧ s.route.left = s.left := by
  have hmessage : s.route.fe.available = s.fe.available ∧ size s.route.fe = size s.fe := by
    rw [route_fe]
    split <;> exact ⟨rfl, rfl⟩
  refine ⟨hmessage.1, hmessage.2, ?_⟩
  simp only [left, hmessage.1, route_be, route_fds, route_kernel]

/-- What is read comes from one of the backends. -/
theorem Running.backend (h : s.Running) (hpc : s.pc ≠ .loopHead) :
    s.be.infd = s.fds.reader ∨ s.be.infd = s.fds.writer := by
  obtain ⟨opened, hw⟩ := h.wired
  cases opened with
  | false =>
    rw [hw.same rfl]
    exact h.aimed.resolve_left hpc
  | true => exact .inl (hw.crossed rfl).1

theorem Running.sound (h : s.Running) : s.Sound := by
  obtain ⟨opened, hw⟩ := h.wired
  exact hw.sound

/-- A message of the client that has been sent has gone from the stream. -/
theorem Running.sent (h : s.Running) (pc : s.pc = .feRecv) (hno : ¬ s.Trapped)
    (send : s.recvFe.2.route.sendFe.1 = 0) : s.recvFe.2.route.sendFe.2.left < s.left := by
  have hs := h.sound.recvFe.route
  obtain ⟨havailable, hsize, hleft⟩ := s.recvFe.2.route_message
  obtain ⟨u, w, he, hne⟩ := pgrMbufSend_effect hs.fe s.recvFe.2.route.kernel
  have htaken := left_withFe hs he
  have five : 5 ≤ s.recvFe.2.fe.available := by
    by_contra hshort
    have hrc : s.recvFe.2.route.sendFe.1 = 1 :=
      congrArg Prod.fst (pgrMbufSend_short (k := s.recvFe.2.route.kernel) (havailable ▸ not_le.mp hshort))
    exact absurd (hrc.symm.trans send) one_ne_zero
  have hpos : 0 < size s.recvFe.2.route.fe := by
    rw [hsize]
    exact Nat.pos_of_ne_zero fun empty => hno (.client (.inl pc) five empty)
  have hu := List.length_pos_iff.mpr (hne send hpos)
  rw [hleft, recvFe_left h.sound] at htaken
  exact lt_of_lt_of_eq (Nat.lt_add_of_pos_left hu) htaken

/-- A message of the COPY DATA sub-protocol that has been relayed has, too. -/
theorem Running.copied (h : s.Running) (pc : s.pc = .copyRecv) (hno : ¬ s.Trapped)
    (relay : s.recvFe.2.relayFe.1 = 0) : s.recvFe.2.relayFe.2.left < s.left := by
  have hs := h.sound.recvFe
  have five : 5 ≤ s.recvFe.2.fe.available := by
    by_contra hshort
    have hrc : s.recvFe.2.relayFe.1 = 1 :=
      congrArg Prod.fst (pgrMbufRelay_short (k := s.recvFe.2.kernel) (not_le.mp hshort))
    exact absurd (hrc.symm.trans relay) one_ne_zero
  obtain ⟨u, w, he, -, -, -, -, hzero, -⟩ := pgrMbufRelay_spec hs.fe five (k := s.recvFe.2.kernel) rfl
  have htaken := left_withFe hs he
  have hpos : 0 < size s.recvFe.2.fe := Nat.pos_of_ne_zero fun empty => hno (.client (.inr pc) five empty)
  rw [recvFe_left h.sound, (hzero.mp relay).1] at htaken
  exact lt_of_lt_of_eq (Nat.lt_add_of_pos_left hpos) htaken

/-- So has a message of a backend. -/
theorem Running.replied (h : s.Running) (pc : s.pc = .beRecv) (hno : ¬ s.Trapped)
    (relay : s.recvBe.2.relayBe.1 = 0) : s.recvBe.2.relayBe.2.left < s.left := by
  have hs := h.sound.recvBe
  have hbackend := h.backend (by rw [pc]; decide)
  have hin : s.recvBe.2.be.infd = s.be.infd := (pgrMbufRecv_safe h.sound.be s.kernel).infd
  have five : 5 ≤ s.recvBe.2.be.available := by
    by_contra hshort
    have hrc : s.recvBe.2.relayBe.1 = 1 :=
      congrArg Prod.fst (pgrMbufRelay_short (k := s.recvBe.2.kernel) (not_le.mp hshort))
    exact absurd (hrc.symm.trans relay) one_ne_zero
  obtain ⟨u, w, he, -, -, -, -, hzero, -⟩ := pgrMbufRelay_spec hs.be five (k := s.recvBe.2.kernel) rfl
  have htaken := left_withBe hs (hin ▸ hbackend) he
  have hpos : 0 < size s.recvBe.2.be := Nat.pos_of_ne_zero fun empty => hno (.backend pc five empty)
  rw [recvBe_left h.sound hbackend, (hzero.mp relay).1] at htaken
  exact lt_of_lt_of_eq (Nat.lt_add_of_pos_left hpos) htaken

/-- What a round of the drain takes from the stream. -/
theorem drainRound_effect (until' : ℤ) {m : Mbuf} (h : m.Wf) (k : Kernel) :
    match drainRound until' m k with
    | .error (_, m', k') => ∃ u, Effect m k u [] m' k'
    | .ok (m', k') => ∃ u, Effect m k u [] m' k' := by
  have hdiscard : ∃ u, Effect m k u [] (pgrMbufDiscard m k).2.1 (pgrMbufDiscard m k).2.2 := by
    by_cases five : 5 ≤ m.available
    · obtain ⟨u, he, -⟩ := pgrMbufDiscard_spec h five (k := k) rfl
      exact ⟨u, he⟩
    · rw [pgrMbufDiscard_short (not_le.mp five)]
      exact ⟨[], .refl h k⟩
  obtain ⟨u, he⟩ := hdiscard
  unfold drainRound
  simp only
  split_ifs
  · exact ⟨[], .refl h k⟩
  · exact ⟨u, he⟩
  · exact ⟨_, he.trans (pgrMbufRecv_spec he.wf _ rfl).1⟩

/-- **A round of the drain** gets on, unless it is trapped or leads to where it is. -/
theorem Running.draining (h : s.Running) (pc : s.pc = .drain) (hno : ¬ s.Trapped) {m : Mbuf} {k : Kernel}
    (round : drainRound (chr 'Z') s.be s.kernel = .ok (m, k)) (hno' : ¬ Trapped { s with be := m, kernel := k }) :
    measure { s with be := m, kernel := k } < s.measure := by
  have hs := h.sound
  have heffect := drainRound_effect (chr 'Z') hs.be s.kernel
  rw [round] at heffect
  obtain ⟨u, he⟩ := heffect
  have htaken := left_withBe hs (h.backend (by rw [pc]; decide)) he
  obtain ⟨-, hround⟩ | ⟨-, -, m', k', hround, -⟩ | ⟨m', k', hround, hdrained⟩ :=
    drainStep_cases (chr 'Z') hs.be h.reads
  · cases hround.symm.trans round
  · cases hround.symm.trans round
  · cases hround.symm.trans round
    have hidle : ∀ {s : Session}, s.pc = .drain → s.idle = 2 + if s.be.available < 5 then 1 else 0 := fun pc => by
      rw [idle, pc]
    rw [measure, measure, hidle pc, hidle (s := { s with be := m, kernel := k }) pc]
    by_cases five : 5 ≤ s.be.available
    · -- what is discarded has a size
      have hsize : size s.be ≠ 0 := fun h0 => hno (.drain pc hdrained.found hdrained.other h0 (.inl five))
      have hlen := congrArg List.length (he.pending_eq.symm.trans hdrained.pending)
      rw [List.length_drop, List.length_drop] at hlen
      have hle := available_le_pending s.be s.kernel
      have huse := he.used_prefix.length_le
      simp only [if_neg (not_lt.mpr five)]
      split_ifs <;> omega
    · -- if there were still not five octets, the next round would be trapped
      have five' : 5 ≤ m.available := by
        by_contra hshort
        obtain ⟨d, rfl⟩ := hdrained.more (not_le.mp five)
        have htype := msgtype_put hs.be hdrained.found d
        exact hno' (.drain pc (htype ▸ hdrained.found) (htype ▸ hdrained.other) (if_pos (not_le.mp hshort))
          hdrained.received)
      simp only [if_pos (not_le.mp five), if_neg (not_lt.mpr five')]
      omega

/-- **A step** of a session that is not trapped gets on, or ends it. -/
theorem Round.gets_on (h : Round s s') (hs : s.Running) (hno : ¬ s.Trapped) (hno' : ¬ s'.Trapped)
    (hend : s'.pc ≠ .shutdown) : s'.measure < s.measure := by
  have hidle := s'.idle_le
  -- something has been taken from a stream
  have htaken : s'.left < s.left → s'.measure < s.measure := fun hlt => by
    simp only [measure]
    omega
  cases h with
  | next pc =>
    have hleft : s.loopHead.left = s.left := by
      rw [loopHead_eq]
      rfl
    have hpc : s.loopHead.pc = .feRecv := by
      rw [loopHead_eq]
      rfl
    simp only [measure, hleft, idle, pc, hpc]
    omega
  | feFailed | feRefused | closed | beFailed | beRefused | copyFailed | copyRefused => exact absurd rfl hend
  | feMore pc recv send | feLast pc recv send => exact htaken (hs.sent pc hno send)
  | badRouting pc recv error reader =>
    have hleft : s.recvBe.2.left = s.left := recvBe_left hs.sound (hs.backend (by rw [pc]; decide))
    have hdrain : (s.recvBe.2.goto .drain).idle ≤ 3 := by
      change (2 + if s.recvBe.2.be.available < 5 then 1 else 0) ≤ 3
      split <;> omega
    have hrecv : s.idle = 4 := by
      simp only [idle, pc, if_pos reader]
    simp only [measure, hrecv, show (s.recvBe.2.goto .drain).left = s.left from hleft]
    omega
  | replied pc' pc recv error relay => exact htaken (hs.replied pc hno relay)
  | draining pc round => exact hs.draining pc hno round hno'
  | drained pc round =>
    rename_i m k
    have heffect := drainRound_effect (chr 'Z') hs.sound.be s.kernel
    rw [round] at heffect
    obtain ⟨u, he⟩ := heffect
    have hleft := left_withBe hs.sound (hs.backend (by rw [pc]; decide)) he
    have hdrain : 2 ≤ s.idle := by
      simp only [idle, pc]
      omega
    change 5 * left { s with be := m, kernel := k } + 1 < 5 * s.left + s.idle
    omega
  | redirected pc =>
    have hset := hs.sound.setBackend s.fds.frontend_ne_writer.symm
    obtain ⟨-, w, hwrote⟩ := pgrMbufResend_safe hset.fe s.kernel
    have hunread : s.redirect.kernel.unread = s.kernel.unread := hwrote.unread
    have hleft : s.redirect.left ≤ s.left := by
      change 0 + s.be.available + (s.redirect.kernel.unread s.fds.frontend).length +
        (s.redirect.kernel.unread s.fds.reader).length + (s.redirect.kernel.unread s.fds.writer).length ≤ s.left
      rw [hunread, left]
      omega
    have hwriter : s.redirect.idle = 0 := by
      simp only [idle, redirect, goto]
      exact if_neg s.fds.reader_ne_writer.symm
    simp only [measure, hwriter, show s.idle = 1 by rw [idle, pc]]
    omega
  | copied pc' pc recv relay => exact htaken (hs.copied pc hno relay)
  | halted pc => exact absurd pc hend

/-! ### Runs -/

theorem start_running (fds : Descriptors) {kernel : Kernel} (hr : kernel.ReadsOk) : (start fds kernel).Running :=
  ⟨⟨false, start_wired fds kernel⟩, .inl rfl, hr⟩

theorem Running.step (h : s.Running) : s.step.Running := by
  obtain ⟨opened, hw⟩ := h.wired
  exact ⟨⟨_, s.step_round.wired hw⟩, s.step_round.aimed hw h.aimed, (s.step_round.follows hw.sound).readsOk h.reads⟩

theorem run_running (fds : Descriptors) {kernel : Kernel} (hr : kernel.ReadsOk) (n : ℕ) :
    (Session.step^[n] (start fds kernel)).Running := by
  induction n with
  | zero => exact start_running fds hr
  | succ n ih =>
    rw [Function.iterate_succ_apply']
    exact ih.step

/-- A session that has ended stays so, and one that is trapped does not end. -/
theorem run_ended (h : s.pc = .shutdown) (n : ℕ) : Session.step^[n] s = s := by
  have hstep : s.step = s := by
    rw [Session.step, h]
  exact Function.iterate_fixed hstep n

theorem Trapped.run (h : s.Trapped) (hs : s.Running) (n : ℕ) :
    (Session.step^[n] s).Trapped ∧ (Session.step^[n] s).Running := by
  induction n with
  | zero => exact ⟨h, hs⟩
  | succ n ih =>
    rw [Function.iterate_succ_apply']
    exact ⟨(ih.1.step ih.2.sound ih.2.reads).1, ih.2.step⟩

theorem Trapped.not_ended (h : s.Trapped) : s.pc ≠ .shutdown := by
  intro hpc
  cases h with
  | client pc => rcases pc with pc | pc <;> cases hpc.symm.trans pc
  | backend pc => cases hpc.symm.trans pc
  | drain pc => cases hpc.symm.trans pc

end Session

/-- **A session ends**, whatever the client and the backends send before they stop and however it is divided, whatever
becomes of each `write`, just when it is never trapped. -/
theorem session_ends_iff (fds : Descriptors) {kernel : Kernel} (hr : kernel.ReadsOk) :
    (∃ n, (Session.step^[n] (Session.start fds kernel)).pc = .shutdown) ↔
      ∀ n, ¬ (Session.step^[n] (Session.start fds kernel)).Trapped := by
  have hrunning := Session.run_running fds hr
  constructor
  · rintro ⟨n, hend⟩ m htrapped
    -- whichever comes first, the other one is not reached
    rcases Nat.le_total n m with hle | hle
    · obtain ⟨i, rfl⟩ := Nat.exists_eq_add_of_le hle
      rw [Nat.add_comm, Function.iterate_add_apply, Session.run_ended hend] at htrapped
      exact htrapped.not_ended hend
    · obtain ⟨i, rfl⟩ := Nat.exists_eq_add_of_le hle
      rw [Nat.add_comm, Function.iterate_add_apply] at hend
      exact (htrapped.run (hrunning m) i).1.not_ended hend
  · intro hno
    by_contra hnever
    have hgoes : ∀ n,
        (Session.step^[n] (Session.start fds kernel)).measure + n ≤ (Session.start fds kernel).measure := by
      intro n
      induction n with
      | zero => exact le_rfl
      | succ n ih =>
        have hnext := hno (n + 1)
        have hgoesOn : (Session.step^[n + 1] (Session.start fds kernel)).pc ≠ .shutdown := fun h => hnever ⟨_, h⟩
        rw [Function.iterate_succ_apply'] at hnext hgoesOn ⊢
        have := (Session.step_round _).gets_on (hrunning n) (hno n) hnext hgoesOn
        omega
    have := hgoes ((Session.start fds kernel).measure + 1)
    omega

/-- A client that says at once that it has nothing more to say is never trapped. -/
theorem session_ends_iff_terminate :
    ¬ ∃ n, (Session.step^[n] (Session.start someDescriptors (someKernel TERMINATE [] []))).Trapped :=
  not_exists.mpr ((session_ends_iff someDescriptors (Kernel.eager_readsOk _)).mp ⟨2, by decide +kernel⟩)

/-- **Five octets are enough** for a client to keep its worker for ever, if the first four of them are `0`. -/
theorem session_captured (fds : Descriptors) {kernel : Kernel} (hr : kernel.ReadsOk)
    (zeros : List.replicate 4 0 <+: kernel.unread fds.frontend) (five : 5 ≤ (kernel.unread fds.frontend).length)
    (n : ℕ) :
    (Session.step^[n] (Session.start fds kernel)).pc ≠ .shutdown := by
  have hrunning := Session.run_running fds hr
  have hs := (hrunning 1).sound
  have htrapped : (Session.step^[1] (Session.start fds kernel)).Trapped := by
    obtain ⟨he, -⟩ := pgrMbufRecv_spec hs.fe kernel rfl
    -- nothing has been read yet, so what is received is what the client sends first
    have hin : (Session.step^[1] (Session.start fds kernel)).fe.infd = fds.frontend := hs.infd
    have hpending : pending (Session.step^[1] (Session.start fds kernel)).fe kernel = kernel.unread fds.frontend := by
      rw [pending, hin]
      rfl
    have hreceived := he.pending.trans hpending
    have hav : 5 ≤ (pgrMbufRecv (Session.step^[1] (Session.start fds kernel)).fe kernel).2.1.available := by
      refine (pgrMbufRecv_seen hs.fe hr (by rw [hs.feLen]; change 0 + 5 ≤ 16384; decide)).elim id fun hend => ?_
      rw [← hreceived, List.nil_append, length_pending, hend] at five
      exact five
    refine .client (.inl rfl) hav ((size_eq_zero_iff he.wf hav).mpr ?_)
    refine List.prefix_of_prefix_length_le (hreceived ▸ zeros) (List.prefix_append _ _) ?_
    rw [length_window]
    exact (show 4 ≤ 5 by decide).trans hav
  cases n with
  | zero => exact fun h => by cases h
  | succ n =>
    rw [Function.iterate_add_apply]
    exact (htrapped.run (hrunning 1) n).1.not_ended

end PgRouter.Worker
