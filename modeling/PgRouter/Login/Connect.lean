import PgRouter.Foundation.Loop
import PgRouter.Login.Compose
import PgRouter.Login.Password
import PgRouter.Wire.Chunks

/-!
# Connecting to a backend

`pgr_conn_connect` of `conn.c`. The router sends a StartupMessage to a backend, answers when it is asked for a
password, and passes over what else there is to come until the backend is ready for a query.

## The model

What precedes the loop leads to its head, or returns. A round of the loop leads to its head again, or returns, or
uses memory that is not its own: `memcpy` of a salt that has not been received, from `NULL`, and a `pwhash` that
is `NULL`. The PasswordMessage is appended to the buffer that the messages of the backend are read into, and
`pgr_mbuf_relay` sends what is first in it.

## What is proved

No `read` fails, but how much it delivers is up to the kernel. Whatever a backend sends before the stream ends,
the loop returns, and it returns `0` only when it has discarded a complete ReadyForQuery, unless it gets to a
round that misleads it: at a NoticeResponse, which is not discarded; at the first octets of certain messages, when
there are fewer than five; at a request for a password that is cut off, or when there is no hash; or at a
ReadyForQuery that is not complete (`connectEnds_iff`).
-/

namespace PgRouter.Login

open Foundation Wire

/-- The state of a login to a backend. -/
structure Connect where
  /-- The connection. -/
  conn : Connection
  /-- Messages of the backend, and replies. -/
  mbuf : Mbuf
  /-- The kernel. -/
  kernel : Kernel

namespace Connect

/-- What `pgr_conn_connect` returns, `none` being the use of memory that is not its own, and the state it leaves. -/
abbrev Exit := Option ℤ × Connect

/-- `return rc`. -/
def ret (l : Connect) (rc : ℤ) : Exit := (some rc, l)

/-- What a function on the buffer leaves. -/
def withMbuf (l : Connect) (r : Outcome) : ℤ × Connect := (r.1, { l with mbuf := r.2.1, kernel := r.2.2 })

/-- `pgr_mbuf_recv(m)`. -/
def recv (l : Connect) : ℤ × Connect := l.withMbuf (pgrMbufRecv l.mbuf l.kernel)

/-- `pgr_mbuf_discard(m)`, its result not being looked at. -/
def discard (l : Connect) : Connect := (l.withMbuf (pgrMbufDiscard l.mbuf l.kernel)).2

/-- `pgr_mbuf_relay(m)`. -/
def relay (l : Connect) : ℤ × Connect := l.withMbuf (pgrMbufRelay l.mbuf l.kernel)

/-- A message has been appended with result `r.1`, and is relayed. -/
def reply (l : Connect) (r : ℤ × Mbuf) : Except Exit Connect :=
  let l := { l with mbuf := r.2 }
  if r.1 ≠ 0 then .error (l.ret r.1)
  else
    let (rc, l) := l.relay
    if rc ≠ 0 then .error (l.ret rc) else .ok l

/-- `pgr_conn_connect` before its loop, `fd` being what `pgr_connect` has returned. -/
def start (c : Connection) (fd : Fd) (k : Kernel) : Except Exit Connect :=
  let l : Connect := ⟨{ c with fd := fd }, pgrMbufNew 512, k⟩
  if fd < 0 then .error (l.ret fd)
  else
    let l := { l with mbuf := pgrMbufSetfd l.mbuf fd fd }
    l.reply (startupMessage l.mbuf l.conn)

/-- `memcpy(c->salt, …, 4)`, from the address `x`. -/
def setSalt (l : Connect) (x : ℕ) : Connect :=
  { l with conn := { l.conn with salt := Vector.ofFn fun i => l.mbuf.buf (x + i) } }

/-- The case `AuthenticationMD5Password`. -/
def md5Password (stack behind : ℕ → Octet) (l : Connect) : Except Exit Connect :=
  match pgrMbufData l.mbuf 4 4 with
  | none => .error (none, l)
  | some x =>
    let l := (l.setSalt x).discard
    match passwordMessage stack behind l.mbuf l.conn with
    | none => .error (none, l)
    | some r => l.reply r

/-- The case `'R'`. -/
def authentication (stack behind : ℕ → Octet) (l : Connect) : Except Exit Connect :=
  let auth := pgrMbufU32 l.mbuf 0
  if auth = 0 then .ok l.discard
  else if auth = 5 then l.md5Password stack behind
  else .error (l.ret (-1))

/-- The `switch`, a message having been received. -/
def dispatch (stack behind : ℕ → Octet) (l : Connect) : Except Exit Connect :=
  let type := pgrMbufMsgtype l.mbuf
  if type = chr 'E' then .error (l.ret (-1))
  else if type = chr 'N' then .ok l
  else if type = chr 'R' then l.authentication stack behind
  else if type = chr 'K' then .ok l.discard
  else if type = chr 'S' then .ok l.discard
  else if type = chr 'Z' then .error (l.discard.ret 0)
  else .error (l.ret (-1))

/-- A round of the loop. `stack` is what the stack contains when `password_message` is called, and `behind` what
is behind the hash. -/
def round (stack behind : ℕ → Octet) (l : Connect) : Except Exit Connect :=
  let (rc, l) := l.recv
  if rc < 0 then .error (l.ret rc) else l.dispatch stack behind

/-! ### The rounds -/

/-- What is left of the stream. -/
def stream (l : Connect) : List Octet := pending l.mbuf l.kernel

/-- What holds at the head of the loop. -/
structure AtHead (l : Connect) : Prop where
  /-- The buffer is in order. -/
  wf : l.mbuf.Wf
  /-- Messages begin where the buffer does. -/
  start : l.mbuf.start = 0
  /-- The buffer is as large as it has been made. -/
  len : l.mbuf.len = 512
  /-- No `read` fails. -/
  reads : l.kernel.ReadsOk

/-- What holds after `pgr_mbuf_recv`. -/
structure Received (l : Connect) : Prop extends AtHead l where
  /-- There are five octets, or all that there still are. -/
  five : 5 ≤ l.mbuf.available ∨ l.kernel.unread l.mbuf.infd = []

/-- A way through a round, `l` being the state after `pgr_mbuf_recv`, and what it comes to. -/
inductive Round (l : Connect) : Except Exit Connect → Prop
  /-- The backend refuses, or what it sends is not understood, or it cannot be answered. -/
  | refused {rc : ℤ} {l' : Connect} (failed : rc ≠ 0) : Round l (.error (some rc, l'))
  /-- The salt has not been received, or there is no hash. -/
  | fault {l' : Connect} (type : pgrMbufMsgtype l.mbuf = chr 'R') (auth : pgrMbufU32 l.mbuf 0 = 5)
      (missing : l.mbuf.available < 13 ∨ l.conn.pwhash = none) : Round l (.error (none, l'))
  /-- The backend is ready. -/
  | ready (type : pgrMbufMsgtype l.mbuf = chr 'Z') : Round l (.error (some 0, l.discard))
  /-- A notice is not looked at. -/
  | notice (type : pgrMbufMsgtype l.mbuf = chr 'N') : Round l (.ok l)
  /-- A message is passed over. -/
  | passed (type : pgrMbufMsgtype l.mbuf = chr 'R' ∧ 5 ≤ l.mbuf.available ∨ pgrMbufMsgtype l.mbuf = chr 'K' ∨
      pgrMbufMsgtype l.mbuf = chr 'S') : Round l (.ok l.discard)
  /-- The password is sent. -/
  | password {x : ℕ} {d : List Octet} (type : pgrMbufMsgtype l.mbuf = chr 'R') (five : 5 ≤ l.mbuf.available)
      (own : ∃ pwhash stack behind salt, d = passwordOctets (passwordToken stack behind pwhash salt))
      (fits : d.length ≤ (l.setSalt x).discard.mbuf.len - (l.setSalt x).discard.mbuf.fill) :
      Round l (.ok (relay { (l.setSalt x).discard with mbuf := (l.setSalt x).discard.mbuf.put d }).2)

/-- A reply is relayed, or not. -/
theorem reply_cases (l : Connect) (r : ℤ × Mbuf) : (∃ rc l', rc ≠ 0 ∧ l.reply r = .error (some rc, l')) ∨
    r.1 = 0 ∧ l.reply r = .ok (relay { l with mbuf := r.2 }).2 := by
  unfold reply
  simp only
  split_ifs with hrc hrelay
  · exact .inl ⟨_, _, hrc, rfl⟩
  · exact .inl ⟨_, _, hrelay, rfl⟩
  · exact .inr ⟨not_not.mp hrc, rfl⟩

/-- The salt is behind the code. -/
theorem pgrMbufData_salt {m : Mbuf} (h0 : m.buf m.start ≠ 0) :
    pgrMbufData m 4 4 = if m.available < 13 then none else some (m.start + 9) := by
  rw [pgrMbufData_eq (by decide), if_neg h0]

/-- There is a code only if there are some octets. -/
theorem available_of_u32 {m : Mbuf} {n : ℕ} (h : pgrMbufU32 m 0 = n) : 5 ≤ m.available := by
  by_contra hlt
  have hnone : pgrMbufData m 0 2 = none := by
    rw [pgrMbufData_eq (by decide)]
    exact if_pos (by split <;> omega)
  rw [pgrMbufU32, hnone] at h
  simp only at h
  omega

theorem md5Password_round (stack behind : ℕ → Octet) {l : Connect} (type : pgrMbufMsgtype l.mbuf = chr 'R')
    (auth : pgrMbufU32 l.mbuf 0 = 5) : Round l (l.md5Password stack behind) := by
  have hdata := pgrMbufData_salt (ne_zero_of_msgtype type (by decide))
  unfold md5Password
  rw [hdata]
  split_ifs with hshort
  · exact .fault type auth (.inl hshort)
  · simp only
    cases hhash : l.conn.pwhash with
    | none =>
      have hconn : (l.setSalt (l.mbuf.start + 9)).discard.conn.pwhash = none := hhash
      rw [passwordMessage_of_none stack behind _ hconn]
      exact .fault type auth (.inr hhash)
    | some pwhash =>
      have hsome : passwordMessage stack behind (l.setSalt (l.mbuf.start + 9)).discard.mbuf
          (l.setSalt (l.mbuf.start + 9)).discard.conn = some (pgrMbufCat (l.setSalt (l.mbuf.start + 9)).discard.mbuf
            (passwordOctets (passwordToken stack behind pwhash (l.setSalt (l.mbuf.start + 9)).conn.salt))) := by
        rw [passwordMessage, show (l.setSalt (l.mbuf.start + 9)).discard.conn.pwhash = some pwhash from hhash]
        rfl
      rw [hsome]
      simp only
      obtain ⟨rc, l', hrc, hreply⟩ | ⟨hrc, hreply⟩ := reply_cases (l.setSalt (l.mbuf.start + 9)).discard
        (pgrMbufCat (l.setSalt (l.mbuf.start + 9)).discard.mbuf
          (passwordOctets (passwordToken stack behind pwhash (l.setSalt (l.mbuf.start + 9)).conn.salt)))
      · rw [hreply]
        exact .refused hrc
      · rw [hreply]
        unfold pgrMbufCat at hrc ⊢
        split_ifs at hrc ⊢ with hroom
        · exact absurd hrc one_ne_zero
        · exact .password type (by omega) ⟨_, _, _, _, rfl⟩ (not_lt.mp hroom)

theorem dispatch_round (stack behind : ℕ → Octet) (l : Connect) : Round l (l.dispatch stack behind) := by
  unfold dispatch authentication
  simp only
  split_ifs with hE hN hR hok hmd5 hK hS hZ
  · exact .refused (by decide)
  · exact .notice hN
  · exact .passed (.inl ⟨hR, available_of_u32 hok⟩)
  · exact md5Password_round stack behind hR hmd5
  · exact .refused (by decide)
  · exact .passed (.inr (.inl hK))
  · exact .passed (.inr (.inr hS))
  · exact .ready hZ
  · exact .refused (by decide)

/-- Receiving does not fail. -/
theorem AtHead.recv {l : Connect} (h : l.AtHead) :
    l.recv.2.Received ∧ l.recv.2.stream = l.stream ∧ l.recv.2.conn = l.conn ∧ 0 ≤ l.recv.1 := by
  obtain ⟨he, hk, hrc⟩ := pgrMbufRecv_spec h.wf l.kernel rfl
  have hstart : l.recv.2.mbuf.start = 0 := hk.start.trans h.start
  have hlen : l.recv.2.mbuf.len = 512 := he.len.trans h.len
  refine ⟨⟨⟨he.wf, hstart, hlen, he.follows.readsOk h.reads⟩, ?_⟩, he.pending, rfl, ?_⟩
  · refine hrc.imp (fun h => h.1) fun hrest => ?_
    obtain ⟨hlt, -, hfull | hend⟩ | ⟨-, -, hbad⟩ := hrest
    · -- the buffer is larger than five octets
      have hav : l.recv.2.mbuf.available < 5 := hlt
      have hfill : l.recv.2.mbuf.fill = l.recv.2.mbuf.len := hfull
      unfold Mbuf.available at hav
      omega
    · exact hend
    · exact absurd h.reads hbad
  · obtain ⟨-, hrc⟩ | ⟨-, hrc, -⟩ | ⟨-, -, hbad⟩ := hrc
    · exact hrc.ge.trans' (Int.natCast_nonneg _)
    · exact hrc.ge
    · exact absurd h.reads hbad

/-- **A round of the loop.** -/
theorem AtHead.round_cases (stack behind : ℕ → Octet) {l : Connect} (h : l.AtHead) :
    Round l.recv.2 (l.round stack behind) := by
  obtain ⟨-, -, -, hrc⟩ := h.recv
  rw [round]
  simp only
  rw [if_neg (not_lt.mpr hrc)]
  exact dispatch_round stack behind l.recv.2

/-! ### What a round consumes -/

/-- The first octet of a message that is passed over. -/
def opens (a : Octet) : Bool := a = 0x52 ∨ a = 0x4b ∨ a = 0x53

/-- How many such octets there still are. -/
def left (l : Connect) : ℕ := l.stream.countP opens

/-- Discarding takes the message from the stream. -/
theorem AtHead.discard {l : Connect} (h : l.AtHead) :
    l.discard.AtHead ∧ l.discard.stream = l.stream.drop (size l.mbuf) := by
  obtain ⟨hwf, hreads, hp⟩ := pgrMbufDiscard_drop h.wf h.reads
  obtain ⟨hstart, hlen⟩ := pgrMbufDiscard_room h.wf l.kernel
  exact ⟨⟨hwf, hstart.trans h.start, hlen.trans h.len, hreads⟩, hp⟩

/-- Relaying takes the first message from the stream, or nothing. -/
theorem AtHead.relay {l : Connect} (h : l.AtHead) : l.relay.2.AtHead ∧ l.relay.2.stream <:+ l.stream := by
  by_cases hav : 5 ≤ l.mbuf.available
  · obtain ⟨u, w, he, hk, -⟩ := pgrMbufRelay_spec h.wf hav (k := l.kernel) rfl
    exact ⟨⟨he.wf, hk.start.trans h.start, he.len.trans h.len, he.follows.readsOk h.reads⟩, u, he.pending⟩
  · have hshort : l.relay.2 = l := by
      rw [Connect.relay, pgrMbufRelay_short (not_le.mp hav)]
      rfl
    rw [hshort]
    exact ⟨h, List.suffix_rfl⟩

/-- Where the loop begins. -/
theorem atHead_start {c : Connection} {fd : Fd} {k : Kernel} (hr : k.ReadsOk) {l : Connect}
    (h : start c fd k = .ok l) : l.AtHead := by
  have hwf : (pgrMbufSetfd (pgrMbufNew 512) fd fd).Wf := ⟨le_rfl, Nat.zero_le _⟩
  unfold start at h
  simp only at h
  split_ifs at h
  obtain ⟨rc, l', -, hreply⟩ | ⟨-, hreply⟩ := reply_cases ⟨{ c with fd := fd }, pgrMbufSetfd (pgrMbufNew 512) fd fd, k⟩
    (startupMessage (pgrMbufSetfd (pgrMbufNew 512) fd fd) { c with fd := fd })
  · cases hreply.symm.trans h
  · cases hreply.symm.trans h
    obtain ⟨hwf', hstart, hlen⟩ := appendAll_wf hwf (startupPieces { c with fd := fd })
    exact (AtHead.relay ⟨hwf', hstart, hlen, hr⟩).1

/-- A type that the loop knows is the first octet of the stream. -/
theorem stream_of_msgtype {l : Connect} {c : Char} (h : pgrMbufMsgtype l.mbuf = chr c) (hlo : 3 < chr c)
    (hhi : chr c < 128) : ∃ rest, l.stream = UInt8.ofNat c.toNat :: rest := by
  rcases head?_of_msgtype h (by omega) hhi with h0 | hhead
  · exact absurd (buf_of_head? h0).2 (ne_zero_of_msgtype h hlo)
  · obtain ⟨rest, hrest⟩ := List.head?_eq_some_iff.mp hhead
    exact ⟨rest ++ l.kernel.unread l.mbuf.infd, by rw [stream, pending, hrest]; rfl⟩

/-- The digits of a digest are none of the first octets. -/
theorem not_opens_hex (d : List Octet) : ∀ a ∈ MessageDigest.hex d, opens a = false := by
  have hdigit : ∀ n < 16, opens (MessageDigest.hexDigit n) = false := by decide
  intro a ha
  obtain ⟨o, -, ha⟩ := List.mem_flatMap.mp ha
  have ho := o.toNat_lt
  rcases List.mem_pair.mp ha with rfl | rfl
  · exact hdigit _ (by omega)
  · exact hdigit _ (by omega)

/-- Nor is any octet of a PasswordMessage. -/
theorem not_opens_password (stack behind : ℕ → Octet) (pwhash : CString) (salt : Vector Octet 4) :
    ∀ a ∈ passwordOctets (passwordToken stack behind pwhash salt), opens a = false := by
  rw [passwordToken_eq]
  intro a ha
  rw [passwordOctets, List.mem_append, List.mem_append] at ha
  rcases ha with (ha | ha) | ha
  · revert a
    decide +kernel
  · exact not_opens_hex _ a ha
  · revert a
    decide +kernel

/-- A message that is discarded had one of them. -/
theorem AtHead.left_discard {l : Connect} (h : l.AtHead) (hav : 5 ≤ l.mbuf.available)
    {t : Octet} {rest : List Octet} (hs : l.stream = t :: rest) (ht : opens t) (h0 : t ≠ 0) :
    l.discard.left < l.left := by
  obtain ⟨-, hdrop⟩ := h.discard
  have hfirst : l.mbuf.buf l.mbuf.start = t := by
    have hget := getElem?_pending h.wf l.kernel (i := 0) (by omega)
    rw [← stream, hs] at hget
    exact (Option.some.inj hget).symm
  have hsize : size l.mbuf ≠ 0 := by
    rw [size, if_neg (by omega), hfirst, if_neg h0]
    omega
  obtain ⟨n, hn⟩ := Nat.exists_eq_succ_of_ne_zero hsize
  rw [left, left, hdrop, hs, hn, List.drop_succ_cons, List.countP_cons_of_pos ht]
  exact Nat.lt_succ_of_le (List.Sublist.countP_le (List.drop_sublist n rest))

/-- Octets of our own that arrive in the buffer are none of them. -/
theorem left_put {l : Connect} (h : l.mbuf.Wf) {d : List Octet} (hd : ∀ a ∈ d, opens a = false) :
    left { l with mbuf := l.mbuf.put d } = l.left := by
  have hzero : d.countP opens = 0 := List.countP_eq_zero.mpr fun a ha => by rw [hd a ha]; decide
  simp only [left, stream, pending, window_put h, put_infd, List.countP_append, hzero, Nat.add_zero]

/-! ### How the loop ends -/

/-- The octets of a ReadyForQuery. -/
def readyOctets (status : Octet) : List Octet := [0x5a, 0, 0, 0, 5, status]

/-- What a backend may say of its transaction: `I`, `T` and `E`. -/
def STATUS : List Octet := [0x49, 0x54, 0x45]

/-- The loop returns, and it returns `0` only when it has discarded a complete ReadyForQuery. -/
def Ends (stack behind : ℕ → Octet) (l : Connect) : Prop :=
  ∃ t rc l', Gets (round stack behind) l t ∧ round stack behind t = .error (some rc, l') ∧
    (rc = 0 → ∃ status ∈ STATUS, t.stream = readyOctets status ++ l'.stream)

/-- What goes wrong with a round, `l` being the state after `pgr_mbuf_recv`. -/
inductive Misled (l : Connect) : Prop
  /-- A NoticeResponse is not discarded. -/
  | notice (type : pgrMbufMsgtype l.mbuf = chr 'N')
  /-- Of a message that is passed over there are fewer than five octets, which are not discarded. -/
  | stump (type : pgrMbufMsgtype l.mbuf = chr 'K' ∨ pgrMbufMsgtype l.mbuf = chr 'S') (short : l.mbuf.available < 5)
  /-- The password is asked for, and the salt has not been received, or there is no hash. -/
  | password (type : pgrMbufMsgtype l.mbuf = chr 'R') (auth : pgrMbufU32 l.mbuf 0 = 5)
      (missing : l.mbuf.available < 13 ∨ l.conn.pwhash = none)
  /-- There is no complete ReadyForQuery. -/
  | ready (type : pgrMbufMsgtype l.mbuf = chr 'Z') (part : ¬ ∃ status ∈ STATUS, readyOctets status <+: l.stream)

/-- A ReadyForQuery is discarded. -/
theorem Received.discard_ready {l : Connect} (h : l.Received) {status : Octet} {rest : List Octet}
    (hs : l.stream = readyOctets status ++ rest) : l.discard.stream = rest := by
  have hlen := length_pending l.mbuf l.kernel
  rw [← stream, hs, List.length_append, readyOctets] at hlen
  simp only [List.length_cons, List.length_nil] at hlen
  have hav : 5 ≤ l.mbuf.available := h.five.elim id fun hend => by
    rw [hend, List.length_nil] at hlen
    omega
  have hsize : size l.mbuf = 6 := by
    rw [size_eq_frameSize h.wf l.kernel hav, ← stream, hs]
    rfl
  rw [h.discard.2, hsize, hs]
  rfl

/-- The type of a round that goes on and does not mislead opens the stream, and five octets are there. -/
theorem stream_of_passed {l : Connect}
    (htype : pgrMbufMsgtype l.mbuf = chr 'R' ∨ pgrMbufMsgtype l.mbuf = chr 'K' ∨ pgrMbufMsgtype l.mbuf = chr 'S') :
    ∃ t rest, l.stream = t :: rest ∧ opens t ∧ t ≠ 0 := by
  rcases htype with h | h | h
  · obtain ⟨rest, hrest⟩ := stream_of_msgtype h (by decide) (by decide)
    exact ⟨_, rest, hrest, by decide, by decide⟩
  · obtain ⟨rest, hrest⟩ := stream_of_msgtype h (by decide) (by decide)
    exact ⟨_, rest, hrest, by decide, by decide⟩
  · obtain ⟨rest, hrest⟩ := stream_of_msgtype h (by decide) (by decide)
    exact ⟨_, rest, hrest, by decide, by decide⟩

/-- The buffer with a reply of our own. -/
theorem AtHead.reply {l : Connect} (h : l.AtHead) {d : List Octet} (fits : d.length ≤ l.mbuf.len - l.mbuf.fill) :
    AtHead { l with mbuf := l.mbuf.put d } :=
  ⟨wf_put h.wf fits, h.start, h.len, h.reads⟩

theorem AtHead.setSalt {l : Connect} (h : l.AtHead) (x : ℕ) : (l.setSalt x).AtHead := ⟨h.wf, h.start, h.len, h.reads⟩

/-- What holds at the head of the loop holds again. -/
theorem Received.atHead {l l' : Connect} (h : l.Received) (hround : Round l (.ok l')) : l'.AtHead := by
  generalize ho : (Except.ok l' : Except Exit Connect) = o at hround
  cases hround with
  | refused | fault | ready => cases ho
  | notice => cases ho; exact h.toAtHead
  | passed => cases ho; exact h.discard.1
  | password type five own fits => cases ho; exact ((h.setSalt _).discard.1.reply fits).relay.1

/-- **Each round** that goes on and does not mislead consumes the first octet of a message. -/
theorem Received.left_lt {l l' : Connect} (h : l.Received) (hround : Round l (.ok l')) (hno : ¬ l.Misled) :
    l'.left < l.left := by
  generalize ho : (Except.ok l' : Except Exit Connect) = o at hround
  cases hround with
  | refused | fault | ready => cases ho
  | notice type => exact absurd (.notice type) hno
  | passed type =>
    cases ho
    have hav : 5 ≤ l.mbuf.available := by
      rcases type with htype | htype
      · exact htype.2
      · exact not_lt.mp fun hshort => hno (.stump htype hshort)
    obtain ⟨t, rest, hs, ht, h0⟩ := stream_of_passed (type.imp_left fun h => h.1)
    exact h.left_discard hav hs ht h0
  | password type five own fits =>
    rename_i x d
    cases ho
    have hdiscard := (h.setSalt x).discard.1
    obtain ⟨-, hsuffix⟩ := (hdiscard.reply fits).relay
    obtain ⟨t, rest, hs, ht, h0⟩ := stream_of_passed (.inl type)
    obtain ⟨pwhash, stack, behind, salt, rfl⟩ := own
    have hown := not_opens_password stack behind pwhash salt
    calc _ ≤ left { (l.setSalt x).discard with mbuf := (l.setSalt x).discard.mbuf.put _ } :=
          hsuffix.sublist.countP_le
      _ = (l.setSalt x).discard.left := left_put hdiscard.wf hown
      _ < l.left := (h.setSalt x).left_discard five hs ht h0

/-! ### Where it does not end -/

/-- Where nothing is consumed, the next round does the same. -/
theorem AtHead.round_stalls (stack behind : ℕ → Octet) {l : Connect} (h : l.AtHead)
    (hstall : pgrMbufMsgtype l.recv.2.mbuf = chr 'N' ∨
      (pgrMbufMsgtype l.recv.2.mbuf = chr 'K' ∨ pgrMbufMsgtype l.recv.2.mbuf = chr 'S') ∧
        l.recv.2.mbuf.available < 5) : l.round stack behind = .ok l.recv.2 := by
  obtain ⟨-, -, -, hrc⟩ := h.recv
  rw [round]
  simp only
  rw [if_neg (not_lt.mpr hrc), dispatch]
  rcases hstall with hN | ⟨hKS, hshort⟩
  · rw [hN]
    rfl
  · have hdiscard : l.recv.2.discard = l.recv.2 := by
      rw [Connect.discard, pgrMbufDiscard_short hshort]
      rfl
    rcases hKS with hK | hS
    · rw [hK, hdiscard]
      rfl
    · rw [hS, hdiscard]
      rfl

/-- What is received again is what has been received. -/
theorem Received.recv_again {l : Connect} (h : l.Received) :
    l.recv.2.mbuf = l.mbuf ∧ l.recv.2.kernel.unread = l.kernel.unread := by
  obtain ⟨k', hrecv, hunread, -⟩ := pgrMbufRecv_stuck h.wf h.reads (h.five.imp_right .inr)
  have hmbuf : l.recv.2.mbuf = l.mbuf := congrArg Prod.fst hrecv
  have hkernel : l.recv.2.kernel = k' := congrArg Prod.snd hrecv
  exact ⟨hmbuf, hkernel ▸ hunread⟩

/-- Where nothing is consumed, the loop does not return. -/
theorem not_returns_of_stalls (stack behind : ℕ → Octet) {l : Connect} (h : l.AtHead)
    (hstall : pgrMbufMsgtype l.recv.2.mbuf = chr 'N' ∨
      (pgrMbufMsgtype l.recv.2.mbuf = chr 'K' ∨ pgrMbufMsgtype l.recv.2.mbuf = chr 'S') ∧
        l.recv.2.mbuf.available < 5) {t : Connect} {out : Exit} (hgets : Gets (round stack behind) l t) :
    round stack behind t ≠ .error out := by
  refine not_error_of_invariant (P := fun s => s.AtHead ∧ s.recv.2.mbuf = l.recv.2.mbuf) ?_ ⟨h, rfl⟩ hgets
  rintro s ⟨hs, hmbuf⟩
  exact ⟨s.recv.2, hs.round_stalls stack behind (hmbuf ▸ hstall), hs.recv.1.toAtHead,
    hs.recv.1.recv_again.1.trans hmbuf⟩

/-- A round that misleads leads to no return, or to one of `0` without a complete ReadyForQuery. -/
theorem AtHead.not_ends_of_misled (stack behind : ℕ → Octet) {l : Connect} (h : l.AtHead)
    (hmisled : l.recv.2.Misled) : ¬ l.Ends stack behind := by
  rintro ⟨t, rc, l', hgets, hret, hready⟩
  obtain ⟨-, hstream, -, hrc⟩ := h.recv
  have hdispatch : l.round stack behind = l.recv.2.dispatch stack behind := by
    rw [round]
    exact if_neg (not_lt.mpr hrc)
  cases hmisled with
  | notice type => exact not_returns_of_stalls stack behind h (.inl type) hgets hret
  | stump type short => exact not_returns_of_stalls stack behind h (.inr ⟨type, short⟩) hgets hret
  | password type auth missing =>
    have hfault : ∃ l'', l.round stack behind = .error (none, l'') := by
      have hmd5 : l.round stack behind = l.recv.2.md5Password stack behind := by
        rw [hdispatch, dispatch, authentication, type, auth]
        rfl
      rw [hmd5, md5Password, pgrMbufData_salt (ne_zero_of_msgtype type (by decide))]
      split_ifs with hshort
      · exact ⟨_, rfl⟩
      · have hhash : l.recv.2.conn.pwhash = none := missing.resolve_left hshort
        have hconn : (l.recv.2.setSalt (l.recv.2.mbuf.start + 9)).discard.conn.pwhash = none := hhash
        simp only [passwordMessage_of_none stack behind _ hconn]
        exact ⟨_, rfl⟩
    obtain ⟨l'', hfault⟩ := hfault
    obtain rfl := Gets.eq_of_error hgets hfault
    cases hfault.symm.trans hret
  | ready type part =>
    have hround : l.round stack behind = .error (l.recv.2.discard.ret 0) := by
      rw [hdispatch, dispatch, type]
      rfl
    obtain rfl := Gets.eq_of_error hgets hround
    cases hround.symm.trans hret
    obtain ⟨status, hstatus, heq⟩ := hready rfl
    exact part ⟨status, hstatus, _, heq.symm.trans hstream.symm⟩

/-- What holds at the head of the loop holds at the head of the next round. -/
theorem AtHead.next {stack behind : ℕ → Octet} {l l' : Connect} (h : l.AtHead)
    (hround : l.round stack behind = .ok l') : l'.AtHead ∧ (¬ l.recv.2.Misled → l'.left < l.left) := by
  obtain ⟨hreceived, hstream, -⟩ := h.recv
  have hcases := h.round_cases stack behind
  rw [hround] at hcases
  refine ⟨hreceived.atHead hcases, fun hno => ?_⟩
  have hlt := hreceived.left_lt hcases hno
  rwa [left, left, hstream] at hlt

/-- A round that returns and does not mislead returns `0` only for a complete ReadyForQuery. -/
theorem AtHead.ends_of_error {stack behind : ℕ → Octet} {l : Connect} (h : l.AtHead) {out : Exit}
    (hround : l.round stack behind = .error out) (hno : ¬ l.recv.2.Misled) : l.Ends stack behind := by
  obtain ⟨hreceived, hstream, -⟩ := h.recv
  have hcases := h.round_cases stack behind
  generalize ho : l.round stack behind = o at hcases
  cases hcases with
  | refused failed => exact ⟨l, _, _, .refl l, ho, fun hrc => absurd hrc failed⟩
  | fault type auth missing => exact absurd (.password type auth missing) hno
  | ready type =>
    refine ⟨l, _, _, .refl l, ho, fun _ => ?_⟩
    by_contra hpart
    refine hno (.ready type ?_)
    rintro ⟨status, hstatus, rest, hrest⟩
    refine hpart ⟨status, hstatus, ?_⟩
    rw [hreceived.discard_ready hrest.symm, hrest, hstream]
  | notice | passed | password => cases hround.symm.trans ho

/-- **The loop ends** as it is to just when no round of it misleads. -/
theorem AtHead.ends_iff (stack behind : ℕ → Octet) {l : Connect} (h : l.AtHead) :
    l.Ends stack behind ↔ ∀ l', Gets (round stack behind) l l' → ¬ l'.recv.2.Misled := by
  have hhead : ∀ {l'}, Gets (round stack behind) l l' → l'.AtHead := fun hgets =>
    hgets.induction (fun s s' hs hround => (AtHead.next hs hround).1) h
  constructor
  · rintro ⟨t, rc, l'', hgets, hret, hready⟩ l' hgets' hmisled
    exact (hhead hgets').not_ends_of_misled stack behind hmisled ⟨t, rc, l'', hgets.last hret hgets', hret, hready⟩
  · intro hno
    obtain ⟨t, out, hgets, -, hret⟩ := exists_return (f := round stack behind) (P := Gets (round stack behind) l) left
      (fun s s' hs hround => ⟨hs.tail hround, ((hhead hs).next hround).2 (hno s hs)⟩) (.refl l)
    obtain ⟨t', rc, l'', hgets', hret', hready⟩ := (hhead hgets).ends_of_error hret (hno t hgets)
    exact ⟨t', rc, l'', hgets.trans hgets', hret', hready⟩

/-- The loop of `pgr_conn_connect`, if it gets to it, ends as it is to. -/
def ConnectEnds (stack behind : ℕ → Octet) (c : Connection) (fd : Fd) (k : Kernel) : Prop :=
  ∀ l, start c fd k = .ok l → l.Ends stack behind

/-- **The login to a backend ends** as it is to, whatever the backend sends, just when no round of it misleads. -/
theorem connectEnds_iff (stack behind : ℕ → Octet) (c : Connection) (fd : Fd) {k : Kernel} (hr : k.ReadsOk) :
    ConnectEnds stack behind c fd k ↔
      ∀ l l', start c fd k = .ok l → Gets (round stack behind) l l' → ¬ l'.recv.2.Misled := by
  constructor
  · intro hends l l' hstart
    exact ((atHead_start hr hstart).ends_iff stack behind).mp (hends l hstart) l'
  · intro hno l hstart
    exact ((atHead_start hr hstart).ends_iff stack behind).mpr fun l' => hno l l' hstart

/-- The type of the first message that is received, and the stream then. -/
def firstReceived (c : Connection) (fd : Fd) (k : Kernel) : Option (ℤ × List Octet) :=
  match start c fd k with
  | .ok l => if l.recv.1 < 0 then none else some (pgrMbufMsgtype l.recv.2.mbuf, l.recv.2.stream)
  | .error _ => none

theorem exists_firstReceived {c : Connection} {fd : Fd} {k : Kernel} {type : ℤ} {stream : List Octet}
    (h : firstReceived c fd k = some (type, stream)) : ∃ l, start c fd k = .ok l ∧ 0 ≤ l.recv.1 ∧
      pgrMbufMsgtype l.recv.2.mbuf = type ∧ l.recv.2.stream = stream := by
  unfold firstReceived at h
  split at h
  · rename_i l hstart
    split_ifs at h with hrc
    cases h
    exact ⟨l, hstart, not_lt.mp hrc, rfl, rfl⟩
  · cases h

/-- A backend that is ready at once. -/
theorem connectEnds_iff_ready :
    let none := fun _ => 0
    ConnectEnds none none bareConnection 3 (Kernel.eager fun _ => readyOctets 0x49) := by
  intro none
  have hfirst : firstReceived bareConnection 3 (.eager fun _ => readyOctets 0x49) =
      some (chr 'Z', readyOctets 0x49) := by decide +kernel
  obtain ⟨l, hstart, hrc, htype, hstream⟩ := exists_firstReceived hfirst
  have hround : round none none l = .error (l.recv.2.discard.ret 0) := by
    change (if l.recv.1 < 0 then _ else l.recv.2.dispatch none none) = _
    rw [if_neg (not_lt.mpr hrc), dispatch, htype]
    rfl
  refine (connectEnds_iff none none bareConnection 3 (Kernel.eager_readsOk _)).mpr fun l₁ l' hstart₁ hgets hmisled => ?_
  cases hstart.symm.trans hstart₁
  -- the first round is the last
  obtain rfl := hgets.eq_of_error hround
  cases hmisled with
  | notice type => exact absurd (htype.symm.trans type) (by decide)
  | stump type => rcases type with type | type <;> exact absurd (htype.symm.trans type) (by decide)
  | password type => exact absurd (htype.symm.trans type) (by decide)
  | ready _ part => exact part ⟨0x49, List.mem_cons_self, hstream ▸ List.prefix_rfl⟩

/-- A backend that sends a NoticeResponse is listened to for ever. -/
theorem not_connectEnds : ¬ ∀ (stack behind : ℕ → Octet) (c : Connection) (fd : Fd) (k : Kernel), k.ReadsOk →
    ConnectEnds stack behind c fd k := by
  intro hall
  have hr : (Kernel.eager fun _ => [0x4e, 0, 0, 0, 5, 0]).ReadsOk := Kernel.eager_readsOk _
  have hends := hall (fun _ => 0) (fun _ => 0) bareConnection 3 _ hr
  have hfirst : firstReceived bareConnection 3 (.eager fun _ => [0x4e, 0, 0, 0, 5, 0]) =
      some (chr 'N', [0x4e, 0, 0, 0, 5, 0]) := by decide +kernel
  obtain ⟨l, hstart, -, htype, -⟩ := exists_firstReceived hfirst
  exact (atHead_start hr hstart).not_ends_of_misled _ _ (.notice htype) (hends l hstart)

end Connect

end PgRouter.Login
