import PgRouter.Wire.Replies
import PgRouter.Worker.Traffic
import PgRouter.Worker.Writes

/-!
# What a request is answered

What the client is given between two requests is the answer to the first of them. It
should be the whole reply of one backend: of the writer, if the request has been redirected,
and otherwise of the backend that it was sent to. It is read off the trace of the kernel,
whoever writes it: all that the descriptor of the client has accepted since the request began.

Whether to redirect a request is decided anew for each message of the reply, so when an
error 25006 comes, the messages before it have already been relayed. `be` is one buffer for
both backends, so what is in it when the session turns to the other backend is taken for the
other's. And a transaction that begins is answered by a backend that has not seen it
(`Routing`).

## What is proved

Only the rounds in which a reply is received give the client anything, and they give it what
they relay (`Session.Round.delivered`). In a run in which none of this happens (`Orderly`), every
request is answered with the whole reply of one backend, and with nothing else; the reply of the
reader that was refused is gone, to its ReadyForQuery (`answered`). No assumption is made about `write`.
-/

namespace PgRouter.Worker

open Foundation Wire

/-- What is recorded of the current request. -/
structure Answer where
  /-- What each backend had still to say when the request began. -/
  stream : Fd → List Octet
  /-- Whether a transaction was open then. -/
  txn : Bool
  /-- Whether the request has been redirected. -/
  redirected : Bool
  /-- How much the client had been given when it began. -/
  given : ℕ
  /-- Whether a request has begun at all. -/
  begun : Bool

namespace Session

/-- Keeps the record. -/
def noteAnswer (s : Session) (a : Answer) : Answer :=
  match s.pc with
  | .loopHead => ⟨s.waiting, s.inTxn, false, (s.kernel.delivered s.fds.frontend).length, true⟩
  | .redirect => { a with redirected := true }
  | _ => a

/-- What the client has been given since the request began. -/
def got (s : Session) (a : Answer) : List Octet := (s.kernel.delivered s.fds.frontend).drop a.given

/-- Nothing happens that mixes up replies. -/
structure Orderly (s : Session) (a : Answer) : Prop where
  /-- No transaction begins while none is open. -/
  begins : s.pc = .feRecv → IsBegin s.recvFe.2.fe → s.inTxn = true
  /-- An error 25006 of the reader is the first message of its reply. -/
  first : s.pc = .beRecv → s.befd = s.fds.reader → pgrMbufIserror s.recvBe.2.be (some BAD_ROUTING) = 0 →
    s.waiting s.fds.reader = a.stream s.fds.reader
  /-- `be` is empty when the next request goes to another backend. -/
  turns : s.pc = .loopHead → s.be.infd ≠ s.nextBackend → s.be.window = []
  /-- `be` is empty when a request is redirected. -/
  redirects : s.pc = .redirect → s.be.window = []

instance (s : Session) (a : Answer) : Decidable (s.Orderly a) :=
  decidable_of_iff
    ((s.pc = .feRecv → IsBegin s.recvFe.2.fe → s.inTxn = true) ∧
      (s.pc = .beRecv → s.befd = s.fds.reader → pgrMbufIserror s.recvBe.2.be (some BAD_ROUTING) = 0 →
        s.waiting s.fds.reader = a.stream s.fds.reader) ∧
      (s.pc = .loopHead → s.be.infd ≠ s.nextBackend → s.be.window = []) ∧ (s.pc = .redirect → s.be.window = []))
    ⟨fun ⟨hb, hf, ht, hr⟩ => ⟨hb, hf, ht, hr⟩, fun ⟨hb, hf, ht, hr⟩ => ⟨hb, hf, ht, hr⟩⟩

/-- What the reader had to say when the request began has gone, up to what it has still to say,
and what has gone has the property `P`, or the reader has nothing more to say. -/
def Gone (P : List Octet → Prop) (s : Session) (a : Answer) : Prop :=
  ∃ gone, gone ++ s.waiting s.fds.reader = a.stream s.fds.reader ∧ (P gone ∨ s.waiting s.fds.reader = [])

/-- What the client has been given is the answer to the request. -/
structure Answered (s : Session) (a : Answer) : Prop where
  /-- It is the beginning of what one backend had to say. -/
  one : s.got a <+: a.stream s.befd
  /-- This is the writer, if the request has been redirected or was in a transaction, and
  otherwise the reader. -/
  backend : a.begun = true → s.befd = if a.redirected || a.txn then s.fds.writer else s.fds.reader
  /-- When the next request is about to begin, it is a whole reply, and the backend has the
  rest still to say. -/
  whole : s.pc = .loopHead → a.begun = true →
    Complete (s.got a) ∧ s.got a ++ s.waiting s.befd = a.stream s.befd
  /-- If the request has been redirected, the reply of the reader has gone as a whole, or the
  reader has nothing more to say. -/
  refused : a.redirected = true → s.Gone Complete a

/-! ### The invariant -/

/-- The reply is being relayed: what the client has been given are whole messages, and the reply goes
on. The writer has said nothing yet if the request went to the reader. -/
def Replying (s : Session) (a : Answer) : Prop :=
  Unfinished (s.got a) ∧ s.got a ++ s.waiting s.befd = a.stream s.befd ∧
    (s.befd = s.fds.reader → s.waiting s.fds.writer = a.stream s.fds.writer)

/-- Where the session is with the answer. -/
def Phase (s : Session) (a : Answer) : Prop :=
  match s.pc with
  | .loopHead => a.begun = true → Complete (s.got a) ∧ s.got a ++ s.waiting s.befd = a.stream s.befd
  | .feRecv => s.got a = [] ∧ a.redirected = false ∧
      s.waiting s.fds.reader = a.stream s.fds.reader ∧ s.waiting s.fds.writer = a.stream s.fds.writer
  | .beRecv | .copyRecv => s.Replying a
  | .drain => s.got a = [] ∧ s.befd = s.fds.reader ∧ s.waiting s.fds.writer = a.stream s.fds.writer ∧
      Seen s.be s.kernel ∧ s.Gone Unfinished a
  | .redirect => s.got a = [] ∧ s.befd = s.fds.reader ∧ s.waiting s.fds.writer = a.stream s.fds.writer ∧
      (s.be.window = [] → s.Gone Complete a)
  | .shutdown => s.got a <+: a.stream s.befd

/-- What every round of an orderly run keeps. -/
structure Answering (s : Session) (a : Answer) : Prop where
  /-- The session is sound. -/
  sound : s.Sound
  /-- No `read` fails. -/
  reads : s.kernel.ReadsOk
  /-- `be` keeps nothing. -/
  base : s.be.start = 0
  /-- A transaction is sent to the writer. -/
  txn : s.inTxn = true → s.befd = s.fds.writer
  /-- A request has begun, but at the start. -/
  begun : s.pc ≠ .loopHead → a.begun = true
  /-- At the start the client has been given nothing. -/
  fresh : a.begun = false → s.got a = []
  /-- What the client had been given stays. -/
  given : a.given ≤ (s.kernel.delivered s.fds.frontend).length
  /-- The reply is read from the backend that the request was sent to. -/
  wired : a.begun = true → s.be.infd = s.befd
  /-- Which backend this is. -/
  backend : a.begun = true → s.befd = if a.redirected || a.txn then s.fds.writer else s.fds.reader
  /-- The reader has messages to say. -/
  reader : s.pc ≠ .shutdown → Legible Message.Plain (s.waiting s.fds.reader)
  /-- The writer has messages to say. -/
  writer : s.pc ≠ .shutdown → Legible Message.Plain (s.waiting s.fds.writer)
  /-- What has become of the reply of the reader. -/
  refused : a.redirected = true → s.Gone Complete a
  /-- Where the session is with the answer. -/
  phase : s.Phase a

/-! ### What is relayed -/

/-- What is relayed in a round that succeeds is a message, and it is not the last of the reply
just when the reply goes on. -/
theorem relayed_message {s : Session} (hs : s.Sound) (hl : Legible Message.Plain (s.waiting s.be.infd))
    (recv : 0 ≤ s.recvBe.1)
    (error : ¬ (pgrMbufIserror s.recvBe.2.be (some BAD_ROUTING) = 0 ∧ s.befd = s.fds.reader))
    (relay : s.recvBe.2.relayBe.1 = 0) :
    ∃ msg : Message, contents s.relayed = msg.octets ∧ (pgrMbufMsgtype s.recvBe.2.be = chr 'Z' ↔ msg.IsReady) ∧
      Effect s.recvBe.2.be s.recvBe.2.kernel msg.octets msg.octets s.recvBe.2.relayBe.2.be
        s.recvBe.2.relayBe.2.kernel ∧ Legible Message.Plain (s.recvBe.2.relayBe.2.waiting s.be.infd) := by
  have hin : s.recvBe.2.be.infd = s.be.infd := (pgrMbufRecv_safe hs.be s.kernel).infd
  rw [← waiting_recvBe hs, ← hin, waiting_infd] at hl
  rcases hres : pgrMbufRelay s.recvBe.2.be s.recvBe.2.kernel with ⟨rc, m, k⟩
  have hresult : s.recvBe.2.relayBe = s.recvBe.2.withBe (rc, m, k) := by rw [relayBe, hres]
  rw [hresult] at relay
  obtain rfl : rc = 0 := relay
  obtain ⟨msg, hfront, he, hrest⟩ := hl.relay (fun _ h => h) hs.recvBe.be hres
  have hrelayed : s.relayed = newlySent s.recvBe.2.kernel s.recvBe.2.relayBe.2.kernel :=
    if_neg (not_or.mpr ⟨not_lt.mpr recv, error⟩)
  rw [hrelayed, hresult]
  refine ⟨msg, (congrArg contents (newlySent_eq he.sent)).trans (contents_map _ _), hfront.type_iff, he, ?_⟩
  have hm : (s.recvBe.2.withBe (0, m, k)).2.be.infd = s.be.infd := he.infd.trans hin
  rw [← hm, waiting_infd]
  exact hrest

/-! ### What the client is given -/

/-- **Only what is relayed of a reply is given to the client.** -/
theorem Round.delivered {s s' : Session} {opened : Bool} (h : Round s s') (hw : s.Wired opened) (ha : s.Aimed) :
    s'.kernel.delivered s.fds.frontend =
      s.kernel.delivered s.fds.frontend ++ if s.pc = .beRecv then contents s.relayed else [] := by
  by_cases hpc : s.pc = .beRecv
  · rw [if_pos hpc]
    have hsame : s.recvBe.2.kernel.delivered s.fds.frontend = s.kernel.delivered s.fds.frontend := by
      rw [Kernel.delivered, Kernel.delivered, show s.recvBe.2.kernel.sent = s.kernel.sent from
        pgrMbufRecv_sent hw.sound.be _]
    have hrelay : 0 ≤ s.recvBe.1 →
        ¬ (pgrMbufIserror s.recvBe.2.be (some BAD_ROUTING) = 0 ∧ s.befd = s.fds.reader) →
        s.recvBe.2.relayBe.2.kernel.delivered s.fds.frontend =
          s.kernel.delivered s.fds.frontend ++ contents s.relayed := by
      intro recv error
      obtain ⟨u, he, -⟩ := relayed_effect hw.sound recv error
      have hsent := he.sent
      rw [show s.recvBe.2.be.outfd = s.fds.frontend from hw.sound.recvBe.outfd] at hsent
      rw [delivered_append hsent, hsame]
    cases h with
    | beFailed pc recv =>
      rw [show s.relayed = [] from if_pos (.inl recv), contents_nil, List.append_nil]
      exact hsame
    | badRouting pc recv error reader =>
      rw [show s.relayed = [] from if_pos (.inr ⟨error, reader⟩), contents_nil, List.append_nil]
      exact hsame
    | beRefused pc recv error => exact hrelay recv error
    | replied pc' pc recv error => exact hrelay recv error
    | next pc | feFailed pc | feRefused pc | closed pc | feMore pc | feLast pc | draining pc | drained pc
    | redirected pc | copyFailed pc | copyRefused pc | copied _ pc | halted pc =>
      rw [pc] at hpc
      cases hpc
  · rw [if_neg hpc, List.append_nil]
    refine (h.writesTo_backends hw ha hpc).delivered fun hfd => ?_
    exact hfd.elim s.fds.frontend_ne_reader s.fds.frontend_ne_writer

/-- What the client has got for the request after a round that does not begin one. -/
theorem Round.got {s s' : Session} {opened : Bool} {a : Answer} (h : Round s s') (hw : s.Wired opened) (ha : s.Aimed)
    (hgiven : a.given ≤ (s.kernel.delivered s.fds.frontend).length) :
    s'.got a = s.got a ++ if s.pc = .beRecv then contents s.relayed else [] := by
  rw [Session.got, (h.sound hw.sound).2, h.delivered hw ha, List.drop_append_of_le_length hgiven, Session.got]

/-! ### Every round keeps the invariant -/

/-- A round in which neither the backend changes nor a request begins or is redirected. -/
theorem Answering.kept {s s' : Session} {a : Answer} (ha : s.Answering a) (hround : Round s s')
    (hpc : s.pc ≠ .loopHead) (hbefd : s'.befd = s.befd) (hin : s'.be.infd = s.be.infd) (hbase : s'.be.start = 0)
    (htxn : s'.inTxn = true → s.befd = s.fds.writer)
    (hreader : s'.pc ≠ .shutdown → Legible Message.Plain (s'.waiting s.fds.reader))
    (hwriter : s'.pc ≠ .shutdown → Legible Message.Plain (s'.waiting s.fds.writer))
    (hrefused : a.redirected = true → s'.waiting s.fds.reader = s.waiting s.fds.reader)
    (hphase : s'.Phase a) : s'.Answering a := by
  obtain ⟨hsound, hfds⟩ := hround.sound ha.sound
  have hbegun := ha.begun hpc
  have hfollows := hround.follows ha.sound
  refine ⟨hsound, hfollows.readsOk ha.reads, hbase, ?_, fun _ => hbegun,
    fun hb => absurd (hb.symm.trans hbegun) (by decide), ?_, ?_, ?_, ?_, ?_, ?_, hphase⟩
  · rw [hbefd, hfds]
    exact htxn
  · rw [hfds]
    exact ha.given.trans (hfollows.delivered _).length_le
  · rw [hbefd, hin]
    exact ha.wired
  · rw [hbefd, hfds]
    exact ha.backend
  · rw [hfds]
    exact hreader
  · rw [hfds]
    exact hwriter
  · intro hr
    rw [Gone, hfds, hrefused hr]
    exact ha.refused hr

/-- In every phase, what the client has got is the beginning of what one backend had to say. -/
theorem Answering.one {s : Session} {a : Answer} (ha : s.Answering a) : s.got a <+: a.stream s.befd := by
  have h := ha.phase
  unfold Phase at h
  split at h
  · by_cases hb : a.begun = true
    · exact ⟨_, (h hb).2⟩
    · rw [ha.fresh (by simpa using hb)]
      exact List.nil_prefix
  · rw [h.1]
    exact List.nil_prefix
  · exact ⟨_, h.2.1⟩
  · exact ⟨_, h.2.1⟩
  · rw [h.1]
    exact List.nil_prefix
  · rw [h.1]
    exact List.nil_prefix
  · exact h

/-- A request goes to the reader or the writer. -/
theorem Answering.backend_or {s : Session} {a : Answer} (ha : s.Answering a) (hpc : s.pc ≠ .loopHead) :
    s.befd = s.fds.reader ∨ s.befd = s.fds.writer := by
  rw [ha.backend (ha.begun hpc)]
  split
  · exact .inr rfl
  · exact .inl rfl

/-- A message of the client has been received, and maybe sent. -/
theorem Answering.sent {s s' : Session} {a : Answer} (ha : s.Answering a) (ho : s.Orderly a) (hround : Round s s')
    (pc : s.pc = .feRecv) (hbefd : s'.befd = s.befd ∨ s'.befd = s.recvFe.2.route.befd)
    (htxn : s'.inTxn = true → s.recvFe.2.route.inTxn = true ∨ s.inTxn = true) (hbe : s'.be = s.be)
    (hk : ∀ fd ≠ s.fds.frontend, s'.kernel.unread fd = s.kernel.unread fd)
    (hpc : s'.pc = .shutdown ∨ s'.pc = .feRecv ∨ s'.pc = .beRecv) (hgot : s'.got a = s.got a) :
    s'.Answering (s.noteAnswer a) := by
  have hnote : s.noteAnswer a = a := by rw [noteAnswer, pc]
  have hphase := ha.phase
  rw [Phase, pc] at hphase
  obtain ⟨hnil, hred, hreader, hwriter⟩ := hphase
  obtain ⟨hr, hw⟩ := waiting_frontend hbe hk
  have hfds := (hround.sound ha.sound).2
  -- a transaction begins only where one is open, and then the backend is the writer already
  have hbegin : IsBegin s.recvFe.2.fe → s.befd = s.fds.writer := fun hb => ha.txn (ho.begins pc hb)
  have hsame : s'.befd = s.befd := by
    rcases hbefd with hbefd | hbefd
    · exact hbefd
    · rw [hbefd, route_befd]
      split
      · exact (hbegin ‹_›).symm
      · rfl
  have hlegible : s.pc ≠ .shutdown := by
    rw [pc]
    nofun
  rw [hnote]
  refine ha.kept hround (by rw [pc]; nofun) hsame (congrArg Mbuf.infd hbe) (by rw [hbe]; exact ha.base) ?_
    (fun _ => hr ▸ ha.reader hlegible) (fun _ => hw ▸ ha.writer hlegible) (fun _ => hr) ?_
  · intro h
    rcases htxn h with h | h
    · exact (route_inTxn h).elim hbegin ha.txn
    · exact ha.txn h
  · unfold Phase
    rcases hpc with hpc | hpc | hpc
    · rw [hpc]
      simp only [hgot, hnil]
      exact List.nil_prefix
    · rw [hpc]
      simp only [hfds]
      exact ⟨hgot.trans hnil, hred, hr.trans hreader, hw.trans hwriter⟩
    · rw [hpc]
      simp only [Replying, hgot, hnil, hsame, hfds]
      refine ⟨.nil, ?_, fun _ => hw.trans hwriter⟩
      rw [List.nil_append]
      rcases ha.backend_or (by rw [pc]; nofun) with hb | hb
      · rw [hb, hr, hreader]
      · rw [hb, hw, hwriter]

/-- A message of the COPY DATA sub-protocol has been received, and maybe relayed. -/
theorem Answering.copied {s s' : Session} {a : Answer} (ha : s.Answering a) (hround : Round s s')
    (pc : s.pc = .copyRecv)
    (hbefd : s'.befd = s.befd) (htxn : s'.inTxn = s.inTxn) (hbe : s'.be = s.be)
    (hk : ∀ fd ≠ s.fds.frontend, s'.kernel.unread fd = s.kernel.unread fd)
    (hpc : s'.pc = .shutdown ∨ s'.pc = .copyRecv ∨ s'.pc = .beRecv) (hgot : s'.got a = s.got a) :
    s'.Answering (s.noteAnswer a) := by
  have hnote : s.noteAnswer a = a := by rw [noteAnswer, pc]
  have hlegible : s.pc ≠ .shutdown := by
    rw [pc]
    nofun
  have hphase := ha.phase
  rw [Phase, pc] at hphase
  obtain ⟨hr, hw⟩ := waiting_frontend hbe hk
  have hfds := (hround.sound ha.sound).2
  obtain ⟨hun, hone, hwriter⟩ := hphase
  have hone' : s.got a ++ s'.waiting s.befd = a.stream s.befd := by
    rcases ha.backend_or (by rw [pc]; nofun) with hb | hb
    · rw [hb] at hone ⊢
      rw [hr, hone]
    · rw [hb] at hone ⊢
      rw [hw, hone]
  have hreplying : s'.Replying a := by
    rw [Replying, hgot, hbefd, hfds]
    exact ⟨hun, hone', fun hb => hw.trans (hwriter hb)⟩
  rw [hnote]
  refine ha.kept hround (by rw [pc]; nofun) hbefd (congrArg Mbuf.infd hbe) (by rw [hbe]; exact ha.base)
    (fun h => ha.txn (htxn.symm.trans h)) (fun _ => hr ▸ ha.reader hlegible) (fun _ => hw ▸ ha.writer hlegible)
    (fun _ => hr) ?_
  unfold Phase
  rcases hpc with hpc | hpc | hpc <;> rw [hpc]
  · change s'.got a <+: a.stream s'.befd
    rw [hgot, hbefd]
    exact ⟨_, hone'⟩
  · exact hreplying
  · exact hreplying

/-- A message of the backend has been received, and maybe relayed. -/
theorem Answering.heard {s s' : Session} {a : Answer} (ha : s.Answering a) (hround : Round s s') (pc : s.pc = .beRecv)
    {u w : List Octet} (hbefd : s'.befd = s.befd) (htxn : s'.inTxn = s.inTxn)
    (he : Effect s.be s.kernel u w s'.be s'.kernel) (hk : Kept s.be s'.be)
    (hlegible : s'.pc ≠ .shutdown → Legible Message.Plain (s'.waiting s.befd))
    (hphase : s.Replying a → u ++ s'.waiting s.befd = s.waiting s.befd →
      (∀ fd ≠ s.befd, s'.waiting fd = s.waiting fd) → s'.Phase a) :
    s'.Answering (s.noteAnswer a) := by
  have hnote : s.noteAnswer a = a := by rw [noteAnswer, pc]
  have hbegun := ha.begun (by rw [pc]; nofun)
  obtain ⟨hin, hother⟩ := waiting_effect he
  rw [ha.wired hbegun] at hin hother
  have hp := ha.phase
  rw [Phase, pc] at hp
  have hl : ∀ fd, Legible Message.Plain (s.waiting fd) → s'.pc ≠ .shutdown → Legible Message.Plain (s'.waiting fd) := by
    intro fd hfd hpc
    by_cases hb : fd = s.befd
    · rw [hb]
      exact hlegible hpc
    · rw [hother fd hb]
      exact hfd
  have hpc : s.pc ≠ .shutdown := by
    rw [pc]
    nofun
  rw [hnote]
  refine ha.kept hround (by rw [pc]; nofun) hbefd he.infd (hk.start.trans ha.base)
    (fun h => ha.txn (htxn.symm.trans h)) (hl _ (ha.reader hpc)) (hl _ (ha.writer hpc)) (fun hred => ?_)
    (hphase hp hin hother)
  -- a request that has been redirected is answered by the writer
  refine hother _ ?_
  rw [ha.backend hbegun, hred]
  exact s.fds.reader_ne_writer

/-- The reader is being drained, so `Legible.drainRound` says what a round does. -/
theorem Answering.drainRound {s : Session} {a : Answer} (ha : s.Answering a) (pc : s.pc = .drain) :
    match PgRouter.Wire.drainRound (chr 'Z') s.be s.kernel with
    | .ok (m, k) => ∃ u, Drained Message.Plain s.be s.kernel u m k ∧ Seen m k ∧
        ((∃ msg : Message, u = msg.octets ∧ ¬ msg.IsReady) ∨ u = [] ∨ pending m k = [])
    | .error (_, m, k) => ∃ u, Drained Message.Plain s.be s.kernel u m k ∧
        ((∃ msg : Message, u = msg.octets ∧ msg.IsReady) ∨ pending m k = [] ∨ m.window ≠ []) := by
  have hp := ha.phase
  rw [Phase, pc] at hp
  have hlegible := ha.reader (by rw [pc]; nofun)
  rw [← hp.2.1, ← ha.wired (ha.begun (by rw [pc]; nofun)), waiting_infd] at hlegible
  exact hlegible.drainRound (fun _ h => h) ha.sound.be ha.reads (by rw [ha.base, ha.sound.beLen]; decide) hp.2.2.2.1

/-- A round of `pgr_mbuf_drain` adds to what has gone. -/
theorem Gone.drained {P Q : List Octet → Prop} {s s' : Session} {a : Answer} (h : s.Gone P a) (hfds : s'.fds = s.fds)
    {u : List Octet} (hu : u ++ s'.waiting s.fds.reader = s.waiting s.fds.reader)
    (hq : (∀ gone, P gone → Q (gone ++ u)) ∨ s'.waiting s.fds.reader = []) : s'.Gone Q a := by
  obtain ⟨gone, heq, hp⟩ := h
  rw [Gone, hfds]
  refine ⟨gone ++ u, by rw [List.append_assoc, hu, heq], ?_⟩
  rcases hq with hq | hnil
  · exact hp.imp (hq gone) fun hnil => (List.append_eq_nil_iff.mp (hu.trans hnil)).2
  · exact .inr hnil

/-- A round of `pgr_mbuf_drain`. -/
theorem Answering.drained {s s' : Session} {a : Answer} (ha : s.Answering a) (hround : Round s s') (pc : s.pc = .drain)
    (hbefd : s'.befd = s.befd) (htxn : s'.inTxn = s.inTxn) {u : List Octet}
    (hd : Drained Message.Plain s.be s.kernel u s'.be s'.kernel)
    (hgot : s'.got a = s.got a)
    (hphase : s.Gone Unfinished a → u ++ s'.waiting s.fds.reader = s.waiting s.fds.reader → s'.be.infd = s.fds.reader →
      s'.got a = [] → s'.befd = s.fds.reader → s'.waiting s.fds.writer = a.stream s.fds.writer → s'.Phase a) :
    s'.Answering (s.noteAnswer a) := by
  have hnote : s.noteAnswer a = a := by rw [noteAnswer, pc]
  have hbegun := ha.begun (by rw [pc]; nofun)
  have hp := ha.phase
  rw [Phase, pc] at hp
  obtain ⟨hnil, hreader, hwriter, -, hgone⟩ := hp
  obtain ⟨hin, hother⟩ := waiting_effect hd.toEffect
  have hinfd := hd.infd
  rw [ha.wired hbegun, hreader] at hin hother hinfd
  have hw := hother _ s.fds.reader_ne_writer.symm
  rw [hnote]
  refine ha.kept hround (by rw [pc]; nofun) hbefd hd.infd (hd.start.trans ha.base)
    (fun h => ha.txn (htxn.symm.trans h)) (fun _ => ?_) (fun _ => hw ▸ ha.writer (by rw [pc]; nofun)) (fun hred => ?_)
    (hphase hgone hin hinfd (hgot.trans hnil) (hbefd.trans hreader) (hw.trans hwriter))
  · rw [← hinfd, waiting_infd]
    exact hd.legible
  · -- what has been redirected is not asked of the reader
    have hb := ha.backend hbegun
    rw [hreader, hred] at hb
    exact absurd hb s.fds.reader_ne_writer

/-- A request begins. -/
theorem Answering.next {s : Session} {a : Answer} (ha : s.Answering a) (ho : s.Orderly a) (pc : s.pc = .loopHead) :
    s.loopHead.Answering (s.noteAnswer a) := by
  have hsound := ((Round.next pc).sound ha.sound).1
  have hnote : s.noteAnswer a = ⟨s.waiting, s.inTxn, false, (s.kernel.delivered s.fds.frontend).length, true⟩ := by
    rw [noteAnswer, pc]
  have hbackend : s.nextBackend = if s.inTxn then s.fds.writer else s.fds.reader := by
    rw [nextBackend]
    split
    · exact ha.txn ‹_›
    · rfl
  have hnonneg : 0 ≤ s.nextBackend := by
    rw [hbackend]
    split
    · exact s.fds.writer_nonneg
    · exact s.fds.reader_nonneg
  have hwait := s.waiting_setBackend hnonneg (ho.turns pc)
  have hlegible : s.pc ≠ .shutdown := by
    rw [pc]
    nofun
  rw [hnote, loopHead_eq]
  rw [loopHead_eq] at hsound
  exact {
    sound := hsound
    reads := ha.reads
    base := ha.base
    txn := fun htxn => hbackend.trans (if_pos htxn)
    begun := fun _ => rfl
    fresh := nofun
    given := le_rfl
    wired := fun _ => if_pos (ne_same_fd hnonneg)
    backend := fun _ => hbackend
    reader := fun _ => (congrFun hwait _).symm ▸ ha.reader hlegible
    writer := fun _ => (congrFun hwait _).symm ▸ ha.writer hlegible
    refused := nofun
    phase := ⟨List.drop_length, rfl, congrFun hwait _, congrFun hwait _⟩ }

/-- A message of the reply has been relayed. -/
theorem Answering.replied {s : Session} {a : Answer} (ha : s.Answering a) (pc' : Pc) (pc : s.pc = .beRecv)
    (hgot : (s.recvBe.2.relayBe.2.goto pc').got a = s.got a ++ contents s.relayed)
    (recv : 0 ≤ s.recvBe.1)
    (error : ¬ (pgrMbufIserror s.recvBe.2.be (some BAD_ROUTING) = 0 ∧ s.befd = s.fds.reader))
    (relay : s.recvBe.2.relayBe.1 = 0)
    (type : (pgrMbufMsgtype s.recvBe.2.be = chr 'G' ∧ pc' = .copyRecv) ∨
      (pgrMbufMsgtype s.recvBe.2.be = chr 'Z' ∧ pc' = .loopHead) ∨
      (pgrMbufMsgtype s.recvBe.2.be ≠ chr 'Z' ∧ pc' = .beRecv)) :
    (s.recvBe.2.relayBe.2.goto pc').Answering (s.noteAnswer a) := by
  have hbe := pgrMbufRecv_safe ha.sound.be s.kernel
  have hround : Round s (s.recvBe.2.relayBe.2.goto pc') := .replied pc' pc recv error relay type
  obtain ⟨he, hk, -⟩ := pgrMbufRecv_spec ha.sound.be s.kernel rfl
  have hwired := ha.wired (ha.begun (by rw [pc]; nofun))
  have hlegible : Legible Message.Plain (s.waiting s.be.infd) := by
    rw [hwired]
    rcases ha.backend_or (by rw [pc]; nofun) with hb | hb <;> rw [hb]
    · exact ha.reader (by rw [pc]; nofun)
    · exact ha.writer (by rw [pc]; nofun)
  obtain ⟨msg, hmsg, htype, he', hrest⟩ := relayed_message ha.sound hlegible recv error relay
  have hall := he.trans he'
  rw [List.nil_append] at hall
  refine ha.heard hround pc rfl rfl hall (hk.trans (pgrMbufRelay_kept hbe.wf _)) (fun _ => hwired ▸ hrest)
    fun ⟨hun, hone, hwriter⟩ hin hother => ?_
  rw [hmsg] at hgot
  have hone' : (s.got a ++ msg.octets) ++ (s.recvBe.2.relayBe.2.goto pc').waiting s.befd = a.stream s.befd := by
    rw [List.append_assoc, hin, hone]
  have hreplying : ¬ msg.IsReady → (s.recvBe.2.relayBe.2.goto pc').Replying a := fun hnot =>
    ⟨hgot ▸ hun.append hnot, hgot ▸ hone',
      fun hb => (hother _ (hb ▸ s.fds.reader_ne_writer.symm)).trans (hwriter hb)⟩
  rcases type with ⟨hg, rfl⟩ | ⟨hz, rfl⟩ | ⟨hnz, rfl⟩
  · exact hreplying fun hready => absurd (hg.symm.trans (htype.mpr hready)) (by decide)
  · exact fun _ => ⟨hgot ▸ hun.complete (htype.mp hz), hgot ▸ hone'⟩
  · exact hreplying fun hready => hnz (htype.mpr hready)

/-- The request has been resent. -/
theorem Answering.redirected {s : Session} {a : Answer} (ha : s.Answering a) (ho : s.Orderly a)
    (pc : s.pc = .redirect) (hgot : s.redirect.got a = s.got a) : s.redirect.Answering (s.noteAnswer a) := by
  have hround := Round.redirected pc
  have hsound := (hround.sound ha.sound).1
  have hphase := ha.phase
  have hnote : s.noteAnswer a = { a with redirected := true } := by rw [noteAnswer, pc]
  rw [Phase, pc] at hphase
  obtain ⟨hnil, hreader, hwriter, hgone⟩ := hphase
  have hnil' : s.redirect.got { a with redirected := true } = [] := hgot.trans hnil
  have hempty := ho.redirects pc
  have hset := ha.sound.setBackend s.fds.frontend_ne_writer.symm
  obtain ⟨hr, w, hwrote⟩ := pgrMbufResend_safe hset.fe s.kernel
  have hunread : s.redirect.kernel.unread = s.kernel.unread := hwrote.unread
  have hwait : s.redirect.waiting = s.waiting := by
    have hbe : s.redirect.be = ({ s with befd := s.fds.writer }.setBackend).be := rfl
    rw [← s.waiting_setBackend s.fds.writer_nonneg fun _ => hempty]
    exact funext fun fd => waiting_congr hbe (congrFun hunread fd)
  have hlegible : s.pc ≠ .shutdown := by
    rw [pc]
    nofun
  have hbegun := ha.begun (by rw [pc]; nofun)
  rw [hnote]
  exact {
    sound := hsound
    reads := (hround.follows ha.sound).readsOk ha.reads
    base := ha.base
    txn := fun _ => rfl
    begun := fun _ => hbegun
    fresh := fun _ => hnil'
    given := ha.given.trans ((hround.follows ha.sound).delivered _).length_le
    wired := fun _ => if_pos (ne_same_fd s.fds.writer_nonneg)
    backend := fun _ => rfl
    reader := fun _ => (congrFun hwait _).symm ▸ ha.reader hlegible
    writer := fun _ => (congrFun hwait _).symm ▸ ha.writer hlegible
    refused := fun _ => by
      rw [Gone, hwait]
      exact hgone hempty
    phase := by
      refine ⟨hnil' ▸ .nil, ?_, fun hb => absurd hb.symm s.fds.reader_ne_writer⟩
      show s.redirect.got { a with redirected := true } ++ s.redirect.waiting s.fds.writer = a.stream s.fds.writer
      rw [hwait, hnil', hwriter]
      rfl }

/-- Every round that mixes up no replies keeps the invariant. -/
theorem Round.answering {s s' : Session} {opened : Bool} (h : Round s s') {a : Answer} (ha : s.Answering a)
    (hw : s.Wired opened) (haim : s.Aimed) (ho : s.Orderly a) : s'.Answering (s.noteAnswer a) := by
  have hround := h
  have hgot := h.got hw haim ha.given
  have hsame : s.pc ≠ .beRecv → s'.got a = s.got a := fun hpc => by rw [hgot, if_neg hpc, List.append_nil]
  have hbe := pgrMbufRecv_safe ha.sound.be s.kernel
  have hclient := h.client ha.sound
  cases h with
  | next pc => exact ha.next ho pc
  | feFailed pc =>
    obtain ⟨hbe, hk⟩ := hclient (.inl pc)
    exact ha.sent ho hround pc (.inl rfl) .inr hbe hk (.inl rfl) (hsame (by rw [pc]; decide))
  | feRefused pc | closed pc =>
    obtain ⟨hbe, hk⟩ := hclient (.inl pc)
    exact ha.sent ho hround pc (.inr rfl) .inl hbe hk (.inl rfl) (hsame (by rw [pc]; decide))
  | feMore pc =>
    obtain ⟨hbe, hk⟩ := hclient (.inl pc)
    exact ha.sent ho hround pc (.inr rfl) .inl hbe hk (.inr (.inl rfl)) (hsame (by rw [pc]; decide))
  | feLast pc =>
    obtain ⟨hbe, hk⟩ := hclient (.inl pc)
    exact ha.sent ho hround pc (.inr rfl) .inl hbe hk (.inr (.inr rfl)) (hsame (by rw [pc]; decide))
  | beFailed pc recv =>
    obtain ⟨he, hk, -⟩ := pgrMbufRecv_spec ha.sound.be s.kernel rfl
    refine ha.heard hround pc rfl rfl he hk (fun h => absurd rfl h) fun hp _ _ => ?_
    have hnil : s.relayed = [] := if_pos (.inl recv)
    rw [if_pos pc, hnil, contents_nil, List.append_nil] at hgot
    change (s.recvBe.2.goto .shutdown).got a <+: a.stream s.befd
    rw [hgot]
    exact ⟨_, hp.2.1⟩
  | badRouting pc recv error reader =>
    obtain ⟨he, hk, -⟩ := pgrMbufRecv_spec ha.sound.be s.kernel rfl
    have hwait : ∀ fd, (s.recvBe.2.goto .drain).waiting fd = s.waiting fd := congrFun (waiting_recvBe ha.sound)
    refine ha.heard hround pc rfl rfl he hk (fun _ => ?_) fun ⟨_, hone, hwriter⟩ _ _ => ?_
    · rw [hwait, reader]
      exact ha.reader (by rw [pc]; nofun)
    · -- nothing of the reply has been relayed yet
      have hfirst := ho.first pc reader error
      rw [reader, hfirst, List.append_left_eq_self] at hone
      have hnil : s.relayed = [] := if_pos (.inr ⟨error, reader⟩)
      rw [if_pos pc, hone, hnil, contents_nil, List.append_nil] at hgot
      refine ⟨hgot, reader, (hwait _).trans (hwriter reader), ?_, [], (hwait _).trans hfirst, .inl .nil⟩
      exact pgrMbufRecv_seen ha.sound.be ha.reads (by rw [ha.base, ha.sound.beLen]; decide)
  | beRefused pc recv error relay =>
    obtain ⟨he, hk, -⟩ := pgrMbufRecv_spec ha.sound.be s.kernel rfl
    obtain ⟨u, he', hfirst⟩ := relayed_effect ha.sound recv error
    have hall := he.trans he'
    rw [List.nil_append, List.nil_append] at hall
    refine ha.heard hround pc rfl rfl hall (hk.trans (pgrMbufRelay_kept hbe.wf _)) (fun h => absurd rfl h)
      fun ⟨_, hone, _⟩ hin _ => ?_
    change (s.recvBe.2.relayBe.2.goto .shutdown).got a <+: a.stream s.befd
    rw [hgot, if_pos pc, ← hone, ← hin]
    exact (List.prefix_append_right_inj _).mpr (hfirst.trans (List.prefix_append _ _))
  | replied pc' pc recv error relay type =>
    rw [if_pos pc] at hgot
    exact ha.replied pc' pc hgot recv error relay type
  | @draining m k pc round =>
    have hdrain := ha.drainRound pc
    rw [round] at hdrain
    obtain ⟨u, hd, hseen, hu⟩ := hdrain
    refine ha.drained hround pc rfl rfl hd (hsame (by rw [pc]; decide)) fun hgone hin hinfd hnil hreader hwriter => ?_
    have hwait : ({ s with be := m, kernel := k } : Session).waiting s.fds.reader = pending m k := by
      rw [← hinfd, waiting_infd]
    rw [Phase, show ({ s with be := m, kernel := k } : Session).pc = .drain from pc]
    refine ⟨hnil, hreader, hwriter, hseen, hgone.drained rfl hin ?_⟩
    rcases hu with ⟨msg, rfl, hnot⟩ | rfl | hend
    · exact .inl fun gone hun => hun.append hnot
    · exact .inl fun gone hun => (List.append_nil gone).symm ▸ hun
    · exact .inr (hwait.trans hend)
  | @drained rc m k pc round =>
    have hdrain := ha.drainRound pc
    rw [round] at hdrain
    obtain ⟨u, hd, hu⟩ := hdrain
    refine ha.drained hround pc rfl rfl hd (hsame (by rw [pc]; decide)) fun hgone hin hinfd hnil hreader hwriter =>
      ⟨hnil, hreader, hwriter, fun hempty => hgone.drained rfl hin ?_⟩
    have hwait : ({ s with be := m, kernel := k }.goto .redirect).waiting s.fds.reader = pending m k := by
      rw [← hinfd, waiting_infd]
      rfl
    rcases hu with ⟨msg, rfl, hready⟩ | hend | hwin
    · exact .inl fun gone hun => hun.complete hready
    · exact .inr (hwait.trans hend)
    · exact absurd hempty hwin
  | redirected pc => exact ha.redirected ho pc (hsame (by rw [pc]; decide))
  | copyFailed pc | copyRefused pc =>
    obtain ⟨hbe, hk⟩ := hclient (.inr pc)
    exact ha.copied hround pc rfl rfl hbe hk (.inl rfl) (hsame (by rw [pc]; decide))
  | copied pc' pc recv relay type =>
    obtain ⟨hbe, hk⟩ := hclient (.inr pc)
    refine ha.copied hround pc rfl rfl hbe hk ?_ (hsame (by rw [pc]; decide))
    rcases type with ⟨-, rfl⟩ | ⟨-, -, rfl⟩
    · exact .inr (.inr rfl)
    · exact .inr (.inl rfl)
  | halted pc =>
    have hn : s.noteAnswer a = a := by rw [noteAnswer, pc]
    rw [hn]
    exact ha

theorem start_answering (fds : Descriptors) {kernel : Kernel} (hr : kernel.ReadsOk)
    (hreader : Legible Message.Plain (kernel.unread fds.reader))
    (hwriter : Legible Message.Plain (kernel.unread fds.writer)) :
    (start fds kernel).Answering ⟨fun _ => [], false, false, (kernel.delivered fds.frontend).length, false⟩ := by
  have hwait : (start fds kernel).waiting = kernel.unread := by
    funext fd
    rw [waiting]
    split <;> rfl
  exact {
    sound := start_sound fds kernel
    reads := hr
    base := rfl
    txn := fun h => by cases h
    begun := fun hpc => absurd rfl hpc
    fresh := fun _ => List.drop_length
    given := le_rfl
    wired := fun h => by cases h
    backend := fun h => by cases h
    reader := fun _ => (congrFun hwait _).symm ▸ hreader
    writer := fun _ => (congrFun hwait _).symm ▸ hwriter
    refused := fun h => by cases h
    phase := fun h => by cases h }

end Session

/-- The record of the current request after `n` steps. -/
def answer (fds : Descriptors) (kernel : Kernel) (n : ℕ) : Answer :=
  history Session.step Session.noteAnswer (Session.start fds kernel)
    ⟨fun _ => [], false, false, (kernel.delivered fds.frontend).length, false⟩ n

/-- **What a request is answered.** Where both backends send messages and no `read` fails, in
every state of an orderly run what the client has been given is the answer to the request. -/
theorem answered (fds : Descriptors) {kernel : Kernel} (hr : kernel.ReadsOk)
    (hreader : Legible Message.Plain (kernel.unread fds.reader))
    (hwriter : Legible Message.Plain (kernel.unread fds.writer)) (n : ℕ)
    (ho : ∀ i < n, (Session.step^[i] (Session.start fds kernel)).Orderly (answer fds kernel i)) :
    (Session.step^[n] (Session.start fds kernel)).Answered (answer fds kernel n) := by
  obtain ⟨⟨_, -⟩, -, ha⟩ : (∃ opened, (Session.step^[n] (Session.start fds kernel)).Wired opened) ∧
      (Session.step^[n] (Session.start fds kernel)).Aimed ∧
      (Session.step^[n] (Session.start fds kernel)).Answering (answer fds kernel n) := by
    refine history_induction_of
      (P := fun (s : Session) (a : Answer) => (∃ opened, s.Wired opened) ∧ s.Aimed ∧ s.Answering a) ?_ ?_ n ho
    · rintro s a ⟨⟨opened, hw⟩, haim, ha⟩ ho
      have hround := s.step_round
      exact ⟨⟨_, hround.wired hw⟩, hround.aimed hw haim, hround.answering ha hw haim ho⟩
    · exact ⟨⟨_, Session.start_wired fds kernel⟩, .inl rfl, Session.start_answering fds hr hreader hwriter⟩
  refine ⟨ha.one, ha.backend, fun pc => ?_, ha.refused⟩
  have hphase := ha.phase
  rw [Session.Phase, pc] at hphase
  exact hphase

/-- A request is refused at once, and answered by the writer. -/
theorem answered_refused :
    let kernel := someKernel (queryMessage [0x69]) (REFUSAL ++ READY) READY
    (Session.step^[7] (Session.start someDescriptors kernel)).Answered (answer someDescriptors kernel 7) := by
  intro kernel
  have hreader : Legible Message.Plain (kernel.unread 4) :=
    (legible_refusal legible_ready).mono fun _ h => h.toPlain
  have hwriter : Legible Message.Plain (kernel.unread 5) := legible_ready.mono fun _ h => h.toPlain
  exact answered someDescriptors (Kernel.eager_readsOk _) hreader hwriter 7 (by decide +kernel)

/-- A request of two statements: the reader executes the first and refuses the second. The
client gets the CommandComplete of the reader and the reply of the writer. -/
theorem not_answered_twoStatements :
    ¬ ∀ (fds : Descriptors) (kernel : Kernel) (n : ℕ), kernel.ReadsOk →
      Legible Message.Plain (kernel.unread fds.reader) →
      Legible Message.Plain (kernel.unread fds.writer) →
      (Session.step^[n] (Session.start fds kernel)).Answered (answer fds kernel n) := by
  intro hall
  have hreader : Legible Message.WellFormed ([0x43, 0, 0, 0, 6, 0x78, 0] ++ (REFUSAL ++ READY)) :=
    legible_message 0x43 [0x78, 0] (by decide) (by decide) (by decide) (fun h => absurd h (by decide)) (by decide)
      (legible_refusal legible_ready)
  have h := hall someDescriptors
    (someKernel (queryMessage [0x69, 0x3b, 0x69]) ([0x43, 0, 0, 0, 6, 0x78, 0] ++ (REFUSAL ++ READY)) READY)
    8 (Kernel.eager_readsOk _) (hreader.mono fun _ h => h.toPlain) (legible_ready.mono fun _ h => h.toPlain)
  exact absurd h.one (by decide +kernel)

end PgRouter.Worker
