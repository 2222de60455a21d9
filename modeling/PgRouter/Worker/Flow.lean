import Mathlib.Logic.Function.Basic
import PgRouter.Wire.Stream
import PgRouter.Worker.Traffic

/-!
# A session on streams

What `handle_client` is for, without buffers: the client and the backends send streams of
messages, and the session takes one message after the other off the stream that it is read
from and passes it on (`Flow.step`). What has been read, and how much at a time, is not
part of the state.

Every session has such an account (`Session.flow`). Receiving does not change it
(`recvFe_flow`, `recvBe_flow`), and the other parts of a round do to it what they do to the
session, as far as enough of the stream is in the buffer.
-/

namespace PgRouter.Worker

open Foundation Wire

/-- A session on streams. -/
@[ext]
structure Flow where
  /-- Where it is. -/
  pc : Pc
  /-- Its descriptors. -/
  fds : Descriptors
  /-- The backend that the request goes to. -/
  befd : Fd
  /-- Whether a transaction is open. -/
  inTxn : Bool
  /-- Where the messages of the client are sent. -/
  outfd : Fd
  /-- The backend that the reply is read from. -/
  infd : Fd
  /-- What the client has still to say. -/
  client : List Octet
  /-- What each backend has still to say. -/
  backend : Fd → List Octet
  /-- What would be resent. -/
  log : List Octet
  /-- What has been sent, and where. -/
  sent : List (Fd × Octet)

/-- The first message is a Query whose text begins with `word`. -/
def QueryBegins (word p : List Octet) : Prop :=
  IsType 'Q' p ∧ word.length ≤ (p.drop 5).length ∧ strncasecmp ((p.drop 5).take word.length) word word.length = 0

instance (word p : List Octet) : Decidable (QueryBegins word p) := inferInstanceAs (Decidable (_ ∧ _))

namespace Flow

/-- On to another part of the program. -/
def goto (f : Flow) (pc : Pc) : Flow := { f with pc := pc }

/-- A transaction begins: it is forced to the writer. -/
def beginTxn (f : Flow) : Flow := { f with inTxn := true, befd := f.fds.writer, outfd := f.fds.writer }

/-- What a Query says about transactions. -/
def route (f : Flow) : Flow :=
  let g := if QueryBegins BEGIN f.client then f.beginTxn else f
  if QueryBegins COMMIT f.client then { g with inTxn := false } else g

/-- The next message of the client is sent and logged. -/
def sendCurrent (f : Flow) : Flow :=
  { f with
    client := beyond f.client
    log := f.log ++ current f.client
    sent := f.sent ++ (current f.client).map (Prod.mk f.outfd) }

/-- The next message of the client is relayed. -/
def copyCurrent (f : Flow) : Flow :=
  { f with client := beyond f.client, sent := f.sent ++ (current f.client).map (Prod.mk f.outfd) }

/-- What the backend has to say. -/
def reply (f : Flow) : List Octet := f.backend f.infd

/-- The next message of the backend is discarded. -/
def dropCurrent (f : Flow) : Flow := { f with backend := Function.update f.backend f.infd (beyond f.reply) }

/-- The next message of the backend is relayed. -/
def relayCurrent (f : Flow) : Flow :=
  { f.dropCurrent with sent := f.sent ++ (current f.reply).map (Prod.mk f.fds.frontend) }

/-- Both backends are told that the client has gone. -/
def terminate (f : Flow) : Flow :=
  { f with sent := f.sent ++ TERMINATE.map (Prod.mk f.fds.reader) ++ TERMINATE.map (Prod.mk f.fds.writer) }.goto
    .shutdown

/-- The head of the outer loop. -/
def loopHead (f : Flow) : Flow :=
  let befd := if f.inTxn then f.befd else f.fds.reader
  { f with befd := befd, outfd := befd, infd := befd }.goto .feRecv

/-- A message of the request. -/
def feRecv (f : Flow) : Flow :=
  let g := f.route.sendCurrent
  if f.client.length < 5 then g.goto .shutdown
  else if IsType 'X' f.client then g.terminate
  else if ¬ IsType 'Q' f.client ∧ ¬ IsType 'S' f.client then g.goto .feRecv
  else g.goto .beRecv

/-- A message of the reply. -/
def beRecv (f : Flow) : Flow :=
  if HasCode BAD_ROUTING f.reply ∧ f.befd = f.fds.reader then f.goto .drain
  else if ¬ IsWhole f.reply then f.relayCurrent.goto .shutdown
  else if IsType 'G' f.reply then f.relayCurrent.goto .copyRecv
  else if ¬ IsType 'Z' f.reply then f.relayCurrent.goto .beRecv
  else f.relayCurrent.goto .loopHead

/-- A message of the reply that is refused. -/
def drain (f : Flow) : Flow :=
  if f.reply = [] then f.goto .redirect
  else if IsType 'Z' f.reply then f.dropCurrent.goto .redirect
  else f.dropCurrent

/-- The request is resent to the writer. -/
def redirect (f : Flow) : Flow :=
  { f with
    befd := f.fds.writer
    outfd := f.fds.writer
    infd := f.fds.writer
    log := []
    sent := f.sent ++ f.log.map (Prod.mk f.fds.writer) }.goto .beRecv

/-- A message of the COPY DATA sub-protocol. -/
def copyRecv (f : Flow) : Flow :=
  if ¬ IsWhole f.client then f.copyCurrent.goto .shutdown
  else if ¬ IsType 'c' f.client ∧ ¬ IsType 'F' f.client then f.copyCurrent.goto .copyRecv
  else f.copyCurrent.goto .beRecv

/-- A step of the session on streams. -/
def step (f : Flow) : Flow :=
  match f.pc with
  | .loopHead => f.loopHead
  | .feRecv => f.feRecv
  | .beRecv => f.beRecv
  | .drain => f.drain
  | .redirect => f.redirect
  | .copyRecv => f.copyRecv
  | .shutdown => f

end Flow

/-- The session on streams that a session amounts to. -/
def Session.flow (s : Session) : Flow where
  pc := s.pc
  fds := s.fds
  befd := s.befd
  inTxn := s.inTxn
  outfd := s.fe.outfd
  infd := s.be.infd
  client := pending s.fe s.kernel
  backend := fun fd => if fd = s.fds.frontend then [] else s.waiting fd
  log := s.fe.log
  sent := s.kernel.sent

/-! ### Recognising a query -/

/-- A text with a NUL does not begin with a word without one. -/
theorem strncasecmp_ne_zero {text word : List Octet} (hword : ∀ c ∈ word, c ≠ 0) {j : ℕ} (hnul : text[j]? = some 0)
    (hj : j < word.length) : strncasecmp text word word.length ≠ 0 := by
  induction word generalizing text j with
  | nil => exact absurd hj (Nat.not_lt_zero _)
  | cons b word ih =>
    cases text with
    | nil => cases hnul
    | cons a text =>
      rw [List.length_cons, strncasecmp]
      by_cases hd : ((tolower a).toNat : ℤ) - (tolower b).toNat ≠ 0
      · rw [if_pos (.inl hd)]
        exact hd
      · cases j with
        | zero =>
          -- the characters agree, and `a` is NUL
          cases hnul
          have hb := tolower_ne_zero (hword b List.mem_cons_self)
          have h0 : (tolower 0).toNat = 0 := rfl
          omega
        | succ j =>
          have ha : a ≠ 0 := by
            rintro rfl
            have hb := tolower_ne_zero (hword b List.mem_cons_self)
            have h0 : (tolower 0).toNat = 0 := rfl
            omega
          rw [if_neg (not_or.mpr ⟨hd, ha⟩)]
          exact ih (fun c hc => hword c (List.mem_cons_of_mem _ hc)) hnul (by simpa using hj)

/-- What is compared of a Query is in the buffer: the first six octets of its text, or the
whole message, with the NUL that ends the text. -/
def Shown (m : Mbuf) : Prop :=
  pgrMbufMsgtype m = chr 'Q' → 5 ≤ m.available →
    11 ≤ m.available ∨ (size m ≤ m.available ∧ 0 ∈ slice m.buf (m.start + 5) (m.start + size m))

instance (m : Mbuf) : Decidable (Shown m) := inferInstanceAs (Decidable (_ → _))

/-- A Query that is shown is recognised by the stream. -/
theorem Shown.queryBegins_iff {m : Mbuf} (h : Shown m) (hm : m.Wf) {k : Kernel} (hs : Seen m k)
    (htype : pgrMbufMsgtype m = chr 'Q') {word : List Octet} (hword : ∀ c ∈ word, c ≠ 0) (hpos : 0 < word.length)
    (hlen : word.length ≤ 6) : queryBegins m word = true ↔ QueryBegins word (pending m k) := by
  have hq := (hs.msgtype_iff hm (c := 'Q') (by decide) (by decide)).mp htype
  have h0 : m.buf m.start ≠ 0 := ne_zero_of_msgtype htype (by decide)
  have hdata : pgrMbufData m 0 word.length = if m.available < 5 + word.length then none else some (m.start + 5) := by
    rw [pgrMbufData_eq (by omega)]
    simp only [if_neg h0, Nat.zero_add]
  have hle := available_le_pending m k
  rw [QueryBegins, and_iff_right hq, queryBegins, hdata, List.length_drop]
  by_cases hav : m.available < 5 + word.length
  · rw [if_pos hav]
    simp only [Bool.false_eq_true, false_iff, not_and]
    intro hlong
    by_cases h5 : 5 ≤ m.available
    · obtain ⟨hsize, hnul⟩ := (h htype h5).resolve_left (by omega)
      obtain ⟨j, hj, hbuf⟩ := List.mem_iff_getElem.mp hnul
      rw [length_slice] at hj
      have hget : (slice m.buf (m.start + 5) (m.start + size m))[j]? = some 0 := by
        rw [List.getElem?_eq_getElem (by rw [length_slice]; exact hj), hbuf]
      rw [getElem?_slice _ (by omega), Nat.add_assoc, ← getElem?_pending hm k (by omega)] at hget
      refine strncasecmp_ne_zero hword (j := j) ?_ (by omega)
      rw [List.getElem?_take_of_lt (by omega), List.getElem?_drop]
      exact hget
    · have := hs.length_iff
      omega
  · have hslice : slice m.buf (m.start + 5) (m.start + 5 + word.length) = ((pending m k).drop 5).take word.length := by
      rw [List.take_drop, ← slice_eq_take_pending hm k (not_lt.mp hav), drop_slice, Nat.add_assoc]
    rw [if_neg hav]
    simp only [hslice, decide_eq_true_eq]
    exact ⟨fun h => ⟨by omega, h⟩, fun h => h.2⟩

/-! ### The parts of a round -/

namespace Session

/-- The reply that is being read is the pending stream of `be`. -/
theorem Sound.reply {s : Session} (hs : s.Sound) : s.flow.reply = pending s.be s.kernel :=
  (if_neg hs.source).trans s.waiting_infd

/-- What an operation on `fe` does to the streams. -/
theorem Sound.withFe_flow {s : Session} (hs : s.Sound) {r : Outcome} {u w : List Octet}
    (he : Effect s.fe s.kernel u w r.2.1 r.2.2) :
    (s.withFe r).2.flow = { s.flow with
      client := pending r.2.1 r.2.2
      log := r.2.1.log
      sent := s.flow.sent ++ w.map (Prod.mk s.flow.outfd) } := by
  refine Flow.ext rfl rfl rfl rfl he.outfd rfl rfl (funext fun fd => ?_) rfl he.sent
  show (if fd = s.fds.frontend then [] else _) = (if fd = s.fds.frontend then [] else _)
  split
  · rfl
  · have hk : (s.withFe r).2.kernel.unread fd = s.kernel.unread fd := he.other fd (hs.infd ▸ ‹_›)
    have hbe : (s.withFe r).2.be = s.be := rfl
    exact waiting_congr hbe hk

/-- What an operation on `be` does to the streams. -/
theorem Sound.withBe_flow {s : Session} (hs : s.Sound) {r : Outcome} {u w : List Octet}
    (he : Effect s.be s.kernel u w r.2.1 r.2.2) :
    (s.withBe r).2.flow = { s.flow with
      backend := Function.update s.flow.backend s.flow.infd (pending r.2.1 r.2.2)
      sent := s.flow.sent ++ w.map (Prod.mk s.flow.fds.frontend) } := by
  have hclient : pending s.fe r.2.2 = pending s.fe s.kernel := by
    rw [pending, pending, he.other _ (hs.infd ▸ hs.source.symm)]
  have he' : Effect s.be s.kernel u w (s.withBe r).2.be (s.withBe r).2.kernel := he
  refine Flow.ext rfl rfl rfl rfl rfl he.infd hclient (funext fun fd => ?_) rfl (hs.outfd ▸ he.sent)
  show (if fd = s.fds.frontend then [] else _) = Function.update s.flow.backend s.be.infd _ fd
  by_cases hfd : fd = s.be.infd
  · rw [hfd, if_neg hs.source, Function.update_self, ← he.infd]
    exact waiting_infd _
  · rw [Function.update_of_ne hfd, (waiting_effect he').2 fd hfd]
    rfl

/-- Receiving a message of the client changes nothing. -/
theorem Sound.recvFe_flow {s : Session} (hs : s.Sound) : s.recvFe.2.flow = s.flow := by
  rcases hr : pgrMbufRecv s.fe s.kernel with ⟨rc, m, k⟩
  obtain ⟨he, hk, -⟩ := pgrMbufRecv_spec hs.fe s.kernel hr
  have hp : pending m k = pending s.fe s.kernel := he.pending
  rw [Session.recvFe, hr, hs.withFe_flow (r := (rc, m, k)) he, List.map_nil, List.append_nil, hp, hk.log]
  rfl

/-- Receiving a message of the backend changes nothing. -/
theorem Sound.recvBe_flow {s : Session} (hs : s.Sound) : s.recvBe.2.flow = s.flow := by
  rcases hr : pgrMbufRecv s.be s.kernel with ⟨rc, m, k⟩
  obtain ⟨he, -, -⟩ := pgrMbufRecv_spec hs.be s.kernel hr
  have hp : pending m k = s.flow.backend s.flow.infd := he.pending.trans hs.reply.symm
  rw [Session.recvBe, hr, hs.withBe_flow (r := (rc, m, k)) he, List.map_nil, List.append_nil, hp,
    Function.update_eq_self]

theorem Sound.sendFe_flow {s : Session} (hs : s.Sound) (hr : Ready s.fe s.kernel) (hseen : Seen s.fe s.kernel) :
    s.sendFe.2.flow = s.flow.sendCurrent ∧ (s.sendFe.1 = 0 ↔ 5 ≤ s.flow.client.length) := by
  obtain ⟨hsent, hrc⟩ := hr.send hseen
  refine ⟨?_, hrc⟩
  rw [Session.sendFe, hs.withFe_flow hsent.toEffect, hsent.toEffect.beyond, hsent.log]
  rfl

theorem Sound.relayFe_flow {s : Session} (hs : s.Sound) (hr : Ready s.fe s.kernel) (hseen : Seen s.fe s.kernel) :
    s.relayFe.2.flow = s.flow.copyCurrent ∧ (s.relayFe.1 = 0 ↔ IsWhole s.flow.client) := by
  obtain ⟨he, hrc⟩ := hr.relay_current hseen
  refine ⟨?_, hrc⟩
  rw [Session.relayFe, hs.withFe_flow he, he.beyond, (pgrMbufRelay_kept hs.fe s.kernel).log]
  rfl

theorem Sound.relayBe_flow {s : Session} (hs : s.Sound) (hr : Ready s.be s.kernel) (hseen : Seen s.be s.kernel) :
    s.relayBe.2.flow = s.flow.relayCurrent ∧ (s.relayBe.1 = 0 ↔ IsWhole s.flow.reply) := by
  obtain ⟨he, hrc⟩ := hr.relay_current hseen
  rw [hs.reply]
  refine ⟨?_, hrc⟩
  rw [Session.relayBe, hs.withBe_flow he, he.beyond, ← hs.reply]
  rfl

/-- What a Query says about transactions is read off the stream. -/
theorem route_flow {s : Session} (hwf : s.fe.Wf) (hseen : Seen s.fe s.kernel) (hshown : Shown s.fe) :
    s.route.flow = s.flow.route := by
  have hne := ne_same_fd s.fds.writer_nonneg
  have hq := hseen.msgtype_iff hwf (c := 'Q') (by decide) (by decide)
  have hbegintxn : s.beginTxn.flow = s.flow.beginTxn :=
    Flow.ext rfl rfl rfl rfl (if_pos hne) rfl rfl rfl rfl rfl
  unfold Session.route Flow.route
  by_cases htype : pgrMbufMsgtype s.fe = chr 'Q'
  · have hbegin : queryBegins s.fe BEGIN = true ↔ QueryBegins BEGIN s.flow.client :=
      hshown.queryBegins_iff hwf hseen htype (by decide +kernel) (by decide) (by decide)
    have hcommit : queryBegins s.fe COMMIT = true ↔ QueryBegins COMMIT s.flow.client :=
      hshown.queryBegins_iff hwf hseen htype (by decide +kernel) (by decide) (by decide)
    rw [if_pos htype]
    by_cases hb : queryBegins s.fe BEGIN = true
    · have hc : queryBegins s.beginTxn.fe COMMIT = queryBegins s.fe COMMIT := rfl
      simp only [if_pos hb, if_pos (hbegin.mp hb), hc]
      by_cases hc : queryBegins s.fe COMMIT = true
      · rw [if_pos hc, if_pos (hcommit.mp hc), ← hbegintxn]
        rfl
      · rw [if_neg hc, if_neg (mt hcommit.mpr hc), hbegintxn]
    · simp only [if_neg hb, if_neg (mt hbegin.mpr hb)]
      by_cases hc : queryBegins s.fe COMMIT = true
      · rw [if_pos hc, if_pos (hcommit.mp hc)]
        rfl
      · rw [if_neg hc, if_neg (mt hcommit.mpr hc)]
  · have hno : ∀ word, ¬ QueryBegins word s.flow.client := fun word h => htype (hq.mpr h.1)
    simp only [if_neg htype, if_neg (hno _)]

end Session

end PgRouter.Worker
