import PgRouter.Login.Authentication
import PgRouter.Login.Buffers
import PgRouter.Wire.Recognition

/-!
# Does a login end?

The loop of `pgr_conn_accept` goes on after an SSLRequest, a CancelRequest and a StartupMessage, and it
looks neither at whether `pgr_mbuf_discard` has discarded anything nor at whether `pgr_mbuf_recv` has
received anything. So the client may stop sending and the loop may go on.

## What is proved

No `read` fails, but how much it delivers is up to the kernel, as is what becomes of each `write`. The
loop ends unless it gets to a state in which one to four octets are left of the stream, of which the first
is `3`, or is `2` while every `write` succeeds (`terminates_iff`): `pgr_mbuf_msgtype` takes such an octet
for a CancelRequest, or an SSLRequest, and `pgr_mbuf_discard` does nothing. A client gets a worker there
with a single octet (`not_terminates`).
-/

namespace PgRouter.Login

open Foundation Wire

/-! ### What a type says of the buffer -/

/-- The types of the untyped messages, by their sizes. -/
theorem msgtype_untyped {m : Mbuf} (h : m.Wf) (h0 : m.window.head? = some 0) (hpos : 0 < pgrMbufMsgtype m) :
    5 ≤ m.available ∧ (pgrMbufMsgtype m = MSG_SSLREQ → frameSize m.window = 8) ∧
      (pgrMbufMsgtype m = MSG_CANCEL → frameSize m.window = 16) ∧
      (pgrMbufMsgtype m = MSG_STARTUP → frameSize m.window ≤ 3 ∨ 9 ≤ frameSize m.window) := by
  have hav : 0 < m.available := by
    rw [← length_window]
    exact List.length_pos_iff.mpr fun hnil => by rw [hnil] at h0; cases h0
  have hbuf : m.buf m.start = 0 := Option.some.inj ((head?_window hav).symm.trans h0)
  have h5 := five_le_of_zero hpos.le hbuf
  rw [msgtype_of_zero hav.ne' hbuf] at hpos ⊢
  have h5' : ¬ m.available < 5 := not_lt.mpr h5
  have hlen : pgrMbufMsglength m = (u32 m.buf m.start + 2 ^ 32 - 4) % 2 ^ 32 := by
    rw [pgrMbufMsglength, if_neg h5', if_pos hbuf]
  have hlt := be24_lt (m.buf (m.start + 1)) (m.buf (m.start + 2)) (m.buf (m.start + 3))
  rw [← u32_eq] at hlt
  refine ⟨h5, ?_⟩
  rw [frameSize_window h h5, size, if_neg h5', if_pos hbuf]
  simp only [MSG_SSLREQ, MSG_CANCEL, MSG_STARTUP]
  split_ifs <;> simp <;> omega

/-- A buffer whose message is of a type that the source has a code for begins with that code, or with
`0`. -/
theorem head?_of_msgtype {m : Mbuf} {t : ℤ} (h : pgrMbufMsgtype m = t) (hlo : 0 ≤ t) (hhi : t < 128) :
    m.window.head? = some 0 ∨ m.window.head? = some (UInt8.ofNat t.toNat) := by
  by_cases hav : m.available = 0
  · rw [pgrMbufMsgtype, if_pos hav] at h
    omega
  rw [head?_window (by omega)]
  by_cases h0 : m.buf m.start = 0
  · exact .inl (congrArg some h0)
  · refine .inr (congrArg some ?_)
    rw [pgrMbufMsgtype, if_neg hav, if_neg h0] at h
    have hlt := (m.buf m.start).toNat_lt
    rw [Int8.toInt, UInt8.toBitVec_toInt8, BitVec.toInt_eq_toNat_cond, UInt8.toNat_toBitVec] at h
    rw [← UInt8.toNat_inj, UInt8.toNat_ofNat']
    split at h <;> omega

namespace Accept

/-! ### What a round does to the buffer -/

/-- A `write` does not take the octet. -/
def Refused (c : WriteChoice) : Prop := c = .fail ∨ c = .upto 0

theorem write_noSsl (k : Kernel) (fd : Fd) :
    ((k.write fd NO_SSL).1.map List.length = some 1 ↔ ¬ Refused k.writes.head) ∧
      (k.write fd NO_SSL).2.writes = k.writes.tail ∧ (k.write fd NO_SSL).2.unread = k.unread := by
  unfold Kernel.write Kernel.accept Refused NO_SSL
  cases k.writes.head with
  | fail => simp
  | upto n => cases n <;> simp [Kernel.emit]
  | all => simp [Kernel.emit]

/-- Receiving does not write. -/
theorem pgrMbufRecv_writes (m : Mbuf) (k : Kernel) : (pgrMbufRecv m k).2.2.writes = k.writes := by
  have hread : ∀ {k k' : Kernel} {fd : Fd} {n : ℕ} {r}, k.read fd n = (r, k') → k'.writes = k.writes := by
    intro k k' fd n r h
    unfold Kernel.read at h
    split at h <;> cases h <;> rfl
  fun_induction pgrMbufRecv m k with
  | case1 m k _ k' h => exact hread h
  | case2 m k _ k' h => exact hread h
  | case3 m k _ got k' h _ ih => exact ih.trans (hread h)
  | case4 => rfl

/-- What is left of the buffer when the first message of the stream is taken from it. -/
theorem drop_current {l : Accept} (hs : Seen l.mbuf l.kernel) :
    l.mbuf.window.drop (current l.stream).length = beyond l.mbuf.window := by
  have hlen := length_window l.mbuf
  by_cases hav : 5 ≤ l.mbuf.available
  · have hsize : frameSize l.stream = frameSize l.mbuf.window := frameSize_append (hlen.ge.trans' hav) _
    have hstream : l.mbuf.window.length ≤ l.stream.length := by
      rw [stream_eq, List.length_append]
      exact Nat.le_add_right _ _
    rw [beyond, current, List.length_take, hsize]
    by_cases hle : frameSize l.mbuf.window ≤ l.mbuf.window.length
    · rw [min_eq_left (hle.trans hstream)]
    · rw [List.drop_eq_nil_of_le (by omega), List.drop_eq_nil_of_le (by omega)]
  · have hend : l.rest = [] := hs.resolve_left hav
    rw [stream_eq, hend, List.append_nil, current_of_lt (by omega), beyond_of_lt (by omega)]
    rfl

/-- There is less than a message, which looks like a CancelRequest or an SSLRequest. -/
structure Passed (l : Accept) : Prop where
  /-- There is less than a message. -/
  short : l.stream.length < 5
  /-- It looks like one. -/
  head : l.stream.head? = some 3 ∨ l.stream.head? = some 2

/-- What a round that does not end the loop does to the buffer, and to what is to be read. -/
structure Goes (salt : Vector Octet 4) (l l' : Accept) : Prop where
  /-- The login stays in order. -/
  inOrder : l'.InOrder
  /-- What is left to be read gets no longer. -/
  rest : l'.rest <:+ l.rest
  /-- If nothing is read, the contents of the buffer echo those before, or are passed over. -/
  dry : l.rest.length ≤ l'.rest.length → Echoes salt l.mbuf.window l'.mbuf.window ∨ Passed l

/-- A message that has a size is discarded. -/
theorem InOrder.goes_discard {l : Accept} (h : l.InOrder) (hs : Seen l.mbuf l.kernel) (salt : Vector Octet 4)
    (long : 5 ≤ l.mbuf.available) (size : 0 < frameSize l.mbuf.window) (head : l.mbuf.window.head? ≠ some 0x52) :
    Goes salt l l.discard where
  inOrder := h.moved (h.discard hs)
  rest := (h.discard hs).rest_suffix
  dry := fun hdry => by
    rw [((h.discard hs).dry hdry).2.2, drop_current hs]
    exact .inl (.dropped (by rwa [length_window]) size head)

theorem InOrder.goes_challenge {l : Accept} {c : Connection} (h : l.InOrder) (hs : Seen l.mbuf l.kernel)
    (head : l.mbuf.window.head? = some 1 ∨ (l.mbuf.window.head? = some 0 ∧ 5 ≤ l.mbuf.window.length ∧
      (frameSize l.mbuf.window ≤ 3 ∨ 9 ≤ frameSize l.mbuf.window)))
    (reply : (l.parsed c).challenge.1 = 0) : Goes c.salt l (l.parsed c).challenge.2 := by
  have hd := h.parsed hs c
  have hp := h.moved hd
  have hsalt : authMd5Message (l.parsed c).mbuf (l.parsed c).conn =
    pgrMbufCat (l.parsed c).mbuf (challengeText c.salt) := rfl
  unfold challenge at reply ⊢
  rw [hsalt] at reply ⊢
  rcases hp.reply (challengeText c.salt) (by simp) with hno | ⟨hroom, hav, hrep⟩
  · rw [hno] at reply
    exact absurd reply one_ne_zero
  rw [hrep] at reply ⊢
  have ha := hp.append hroom
  obtain ⟨w, hm, -, hrc, -⟩ := ha.relay hav
  have hrest : ((l.parsed c).append (challengeText c.salt)).rest = (l.parsed c).rest := rfl
  refine ⟨ha.moved hm, hm.rest_suffix.trans (hrest ▸ hd.rest_suffix), fun hdry => .inl ?_⟩
  have hle := hm.rest_suffix.length_le
  have hle' := hd.rest_suffix.length_le
  rw [hrest] at hle
  obtain ⟨-, -, hwin⟩ := hd.dry (hdry.trans hle)
  obtain ⟨-, hu, hwin'⟩ := hm.dry (by rw [hrest]; omega)
  have hseen : Seen ((l.parsed c).append (challengeText c.salt)).mbuf
    ((l.parsed c).append (challengeText c.salt)).kernel := .inl hav
  rw [drop_current hs] at hwin
  rw [drop_current hseen] at hwin'
  have hwindow := append_window hp (challengeText c.salt)
  rw [hwin] at hwindow
  rw [hwin', hwindow]
  have hfill := length_window_eq hp
  rw [hwin] at hfill
  rw [length_challengeText] at hroom
  refine .answered head (by omega) ?_
  rw [(hrc.mp reply).1, stream_eq, frameSize_append (by rw [length_window]; exact hav), hwindow] at hu
  simpa using hu

theorem discard_short {l : Accept} (h : l.mbuf.available < 5) : l.discard = l := by
  rw [discard, pgrMbufDiscard_short h]
  rfl

/-- Writing to the client does nothing to the buffer. -/
theorem InOrder.noSsl {l : Accept} (h : l.InOrder) : l.noSsl.InOrder :=
  ⟨h.wf, h.start, h.len, (Kernel.write_wrote rfl).2.follows.readsOk h.reads⟩

theorem noSsl_rest (l : Accept) : l.noSsl.rest = l.rest := congrFun (write_noSsl l.kernel l.conn.fd).2.2 _

theorem noSsl_stream (l : Accept) : l.noSsl.stream = l.stream := congrArg (l.mbuf.window ++ ·) (noSsl_rest l)

theorem recv_noSsl_writes (l : Accept) : l.recv.2.noSsl.kernel.writes = l.kernel.writes.tail :=
  (write_noSsl l.recv.2.kernel _).2.1.trans (congrArg Stream'.tail (pgrMbufRecv_writes ..))

theorem Goes.noSsl {salt : Vector Octet 4} {l l' : Accept} (h : Goes salt l l') (hlong : 5 ≤ l.stream.length) :
    Goes salt l l'.noSsl where
  inOrder := h.inOrder.noSsl
  rest := by
    rw [noSsl_rest]
    exact h.rest
  dry := fun hdry => by
    rw [noSsl_rest] at hdry
    exact (h.dry hdry).imp_right fun hp => absurd hp.short (not_lt.mpr hlong)

/-- Less than a message is passed over. -/
theorem Passed.goes {l l' : Accept} (hp : Passed l) (h : l'.InOrder) (hrest : l'.rest = l.rest)
    (salt : Vector Octet 4) :
    Goes salt l l' :=
  ⟨h, hrest ▸ List.suffix_rfl, fun _ => .inr hp⟩

/-- **What a round does** that does not end the loop. -/
theorem Round.goes {ctx : Context} {stack : ℕ → Octet} {salt : Vector Octet 4} {l l' : Accept}
    (hround : Round ctx stack l l') (h : l.InOrder) (hs : Seen l.mbuf l.kernel) (hsound : Sound ctx salt l)
    (hstage : l.stage = .receiving) (hgo : l'.stage = .receiving) : Goes salt l l' := by
  have hlen : l.stream.length < 5 ↔ l.mbuf.available < 5 := hs.length_iff
  have hwlen := length_window l.mbuf
  -- less than a message is the whole stream
  have hshort : l.mbuf.available < 5 → l.stream = l.mbuf.window := fun hlt => by
    rw [stream_eq, show l.rest = [] from hs.resolve_left (by omega), List.append_nil]
  have hpos : ∀ {a : Octet}, 5 ≤ l.mbuf.available → l.mbuf.window.head? = some a → a ≠ 0 →
    0 < frameSize l.mbuf.window :=
    fun hav head ha => frameSize_pos (by omega) head ha
  cases hround with
  | ssl type write =>
    rcases head?_of_msgtype type (by decide) (by decide) with h0 | h2
    · obtain ⟨hav, hsize, -⟩ := msgtype_untyped h.wf h0 (by rw [type]; decide)
      exact (h.goes_discard hs salt hav (by rw [hsize type]; decide) (by rw [h0]; decide)).noSsl (by omega)
    · by_cases hav : 5 ≤ l.mbuf.available
      · exact (h.goes_discard hs salt hav (hpos hav h2 (by decide)) (by rw [h2]; decide)).noSsl (by omega)
      · have hp : Passed l := ⟨hlen.mpr (by omega), .inr (by rw [hshort (by omega)]; exact h2)⟩
        rw [discard_short (by omega)]
        exact hp.goes h.noSsl (noSsl_rest l) salt
  | cancel type =>
    rcases head?_of_msgtype type (by decide) (by decide) with h0 | h3
    · obtain ⟨hav, -, hsize, -⟩ := msgtype_untyped h.wf h0 (by rw [type]; decide)
      exact h.goes_discard hs salt hav (by rw [hsize type]; decide) (by rw [h0]; decide)
    · by_cases hav : 5 ≤ l.mbuf.available
      · exact h.goes_discard hs salt hav (hpos hav h3 (by decide)) (by rw [h3]; decide)
      · have hp : Passed l := ⟨hlen.mpr (by omega), .inl (by rw [hshort (by omega)]; exact h3)⟩
        rw [discard_short (by omega)]
        exact hp.goes h rfl salt
  | startup type params reply =>
    have hc := (extractParams_consistent params (hsound.consistent (.inl hstage))).1.trans hsound.salt
    rw [← hc]
    refine h.goes_challenge hs ?_ reply
    rcases head?_of_msgtype type (by decide) (by decide) with h0 | h1
    · obtain ⟨hav, -, -, hsize⟩ := msgtype_untyped h.wf h0 (by rw [type]; decide)
      exact .inr ⟨h0, by omega, hsize type⟩
    · exact .inl h1
  | startupFault => cases hgo
  | passwordFault => cases hgo
  | sslFailed => cases hgo
  | startupRefused => cases hgo
  | startupFailed => cases hgo
  | refused => cases hgo
  | welcomeFailed => cases hgo
  | readyFailed => cases hgo
  | accepted => cases hgo
  | unknown => cases hgo

/-- A login that is over stays as it is. -/
theorem step_over {ctx : Context} {stack : ℕ → Octet} {l : Accept} (h : l.stage ≠ .receiving) :
    l.step ctx stack = l := by
  rcases step_cases ctx stack l with ⟨-, hstep⟩ | ⟨hs, -⟩ | ⟨hs, -⟩
  · exact hstep
  · exact absurd hs h
  · exact absurd hs h

/-- A step that does not end the login is a round. -/
theorem step_goes {ctx : Context} {stack : ℕ → Octet} {salt : Vector Octet 4} {l : Accept} (h : l.InOrder)
    (hsound : Sound ctx salt l) (hs : l.stage = .receiving) (hgo : (l.step ctx stack).stage = .receiving) :
    Goes salt l.recv.2 (l.step ctx stack) := by
  obtain ⟨hm, -, hseen⟩ := h.recv
  rcases step_cases ctx stack l with ⟨hno, -⟩ | ⟨-, -, hstep⟩ | ⟨-, -, hround⟩
  · exact absurd hs hno
  · rw [hstep] at hgo
    cases hgo
  · exact hround.goes (h.moved hm) hseen (hsound.same (hsound.consistent (.inl hs)) rfl) hs hgo

theorem step_inOrder {ctx : Context} {stack : ℕ → Octet} {salt : Vector Octet 4} {l : Accept} (h : l.InOrder)
    (hsound : Sound ctx salt l) (hgo : (l.step ctx stack).stage = .receiving) : (l.step ctx stack).InOrder := by
  by_cases hs : l.stage = .receiving
  · exact (step_goes h hsound hs hgo).inOrder
  · rwa [step_over hs]

theorem InOrder.step_eq {l : Accept} (h : l.InOrder) (hs : l.stage = .receiving) (ctx : Context) (stack : ℕ → Octet) :
    l.step ctx stack = l.recv.2.dispatch ctx stack := by
  rw [step, hs]
  exact if_neg (not_lt.mpr h.recv.2.1)

/-! ### Less than a message -/

/-- A step when less than a message is left. -/
theorem InOrder.step_short {l : Accept} (h : l.InOrder) (hs : l.stage = .receiving) (hlt : l.stream.length < 5)
    (ctx : Context) (stack : ℕ → Octet) :
    l.recv.2.stream = l.stream ∧ l.recv.2.mbuf.window = l.stream ∧ l.recv.2.mbuf.available < 5 ∧
      l.step ctx stack = l.recv.2.dispatch ctx stack := by
  obtain ⟨hm, -, hseen⟩ := h.recv
  have hstream : l.recv.2.stream = l.stream := hm.stream_eq
  have hav := hseen.length_iff.mp (show l.recv.2.stream.length < 5 by rwa [hstream])
  have hend : l.recv.2.rest = [] := hseen.resolve_left (not_le.mpr hav)
  refine ⟨hstream, ?_, hav, h.step_eq hs ctx stack⟩
  rw [← hstream, Accept.stream_eq, hend, List.append_nil]

/-- What looks like a CancelRequest stays where it is. -/
theorem InOrder.step_three {l : Accept} (h : l.InOrder) (hs : l.stage = .receiving) (hlt : l.stream.length < 5)
    (h3 : l.stream.head? = some 3) (ctx : Context) (stack : ℕ → Octet) : l.step ctx stack = l.recv.2 := by
  obtain ⟨-, hwindow, hav, hstep⟩ := h.step_short hs hlt ctx stack
  have htype : pgrMbufMsgtype l.recv.2.mbuf = MSG_CANCEL :=
    msgtype_of_head? (by rw [hwindow, h3]) (by decide) (by decide)
  rw [hstep, dispatch, htype, if_neg (by decide), if_pos rfl, cancelRequest, discard_short hav]

/-- What looks like an SSLRequest stays where it is, and is answered. -/
theorem InOrder.step_two {l : Accept} (h : l.InOrder) (hs : l.stage = .receiving) (hlt : l.stream.length < 5)
    (h2 : l.stream.head? = some 2) (ctx : Context) (stack : ℕ → Octet) :
    (¬ Refused l.kernel.writes.head → l.step ctx stack = l.recv.2.noSsl) ∧
      (Refused l.kernel.writes.head → (l.step ctx stack).stage = .returned (-1)) := by
  obtain ⟨-, hwindow, hav, hstep⟩ := h.step_short hs hlt ctx stack
  have htype : pgrMbufMsgtype l.recv.2.mbuf = MSG_SSLREQ :=
    msgtype_of_head? (by rw [hwindow, h2]) (by decide) (by decide)
  have hstep' : l.step ctx stack = l.recv.2.sslRequest := by
    rw [hstep, dispatch, htype, if_pos rfl]
  have hwrites : l.recv.2.kernel.writes = l.kernel.writes := pgrMbufRecv_writes ..
  obtain ⟨hacc, -⟩ := write_noSsl l.recv.2.kernel l.recv.2.conn.fd
  rw [hwrites] at hacc
  rw [hstep', sslRequest, discard_short hav]
  simp only
  refine ⟨fun hno => ?_, fun hyes => ?_⟩
  · rw [if_pos (hacc.mpr hno)]
    rfl
  · rw [if_neg fun hok => hacc.mp hok hyes]
    rfl

/-- Nothing more arrives, and what there is is passed over for ever. -/
structure Hung (l : Accept) : Prop where
  /-- The loop goes on. -/
  stage : l.stage = .receiving
  /-- There is less than a message. -/
  short : l.stream.length < 5
  /-- It looks like a CancelRequest, or like an SSLRequest, and every `write` takes the answer. -/
  head : l.stream.head? = some 3 ∨ (l.stream.head? = some 2 ∧ ∀ i, ¬ Refused (l.kernel.writes.get i))

/-- Where the loop hangs it goes on hanging. -/
theorem Hung.step {l : Accept} (hl : Hung l) (h : l.InOrder) (ctx : Context) (stack : ℕ → Octet) :
    Hung (l.step ctx stack) := by
  obtain ⟨hstream, -⟩ := h.step_short hl.stage hl.short ctx stack
  rcases hl.head with h3 | ⟨h2, hw⟩
  · rw [h.step_three hl.stage hl.short h3]
    exact ⟨hl.stage, by rw [hstream]; exact hl.short, .inl (by rw [hstream, h3])⟩
  · rw [(h.step_two hl.stage hl.short h2 ctx stack).1 (hw 0)]
    have hstream' := (noSsl_stream l.recv.2).trans hstream
    refine ⟨hl.stage, by rw [hstream']; exact hl.short, .inr ⟨by rw [hstream', h2], fun i => ?_⟩⟩
    rw [recv_noSsl_writes]
    exact hw (i + 1)

/-- A `write` that fails ends it. -/
theorem ends_of_refused {ctx : Context} {stack : ℕ → Octet} {salt : Vector Octet 4} {l : Accept} (h : l.InOrder)
    (hsound : Sound ctx salt l) (hs : l.stage = .receiving) (hlt : l.stream.length < 5) (h2 : l.stream.head? = some 2)
    {i : ℕ} (hi : Refused (l.kernel.writes.get i)) : ∃ n, ((step ctx stack)^[n] l).stage ≠ .receiving := by
  induction i generalizing l with
  | zero =>
    refine ⟨1, fun hgo => ?_⟩
    have hret := (h.step_two hs hlt h2 ctx stack).2 hi
    rw [Function.iterate_one, hret] at hgo
    cases hgo
  | succ i ih =>
    by_cases h0 : Refused l.kernel.writes.head
    · refine ⟨1, fun hgo => ?_⟩
      have hret := (h.step_two hs hlt h2 ctx stack).2 h0
      rw [Function.iterate_one, hret] at hgo
      cases hgo
    obtain ⟨hstream, -⟩ := h.step_short hs hlt ctx stack
    have hstep := (h.step_two hs hlt h2 ctx stack).1 h0
    have hstage : (l.step ctx stack).stage = .receiving := by
      rw [hstep]
      exact hs
    have hstream' : (l.step ctx stack).stream = l.stream := by rw [hstep, noSsl_stream, hstream]
    obtain ⟨n, hn⟩ := ih (step_inOrder h hsound hstage) (step_sound stack hsound).1 hstage (by rwa [hstream'])
      (by rw [hstream', h2]) (by rw [hstep, recv_noSsl_writes]; exact hi)
    exact ⟨n + 1, hn⟩

/-! ### Every login -/

/-- A login ends, or hangs. -/
theorem ends_or_hangs {ctx : Context} (stack : ℕ → Octet) {salt : Vector Octet 4} {l : Accept} (h : l.InOrder)
    (hsound : Sound ctx salt l) :
    ∃ n, ((step ctx stack)^[n] l).stage ≠ .receiving ∨ Hung ((step ctx stack)^[n] l) := by
  -- on what is left to be read, and, as long as nothing is read, on the contents of the buffer
  induction hn : l.rest.length using Nat.strong_induction_on generalizing l with
  | _ n ihrest =>
  induction hw : l.mbuf.window using (echoes_wf salt).induction generalizing l with
  | _ w ihwindow =>
  by_cases hs : l.stage = .receiving
  swap
  · exact ⟨0, .inl hs⟩
  by_cases hgo : (l.step ctx stack).stage = .receiving
  swap
  · exact ⟨1, .inl hgo⟩
  have hm := h.recv.1
  have hgoes := step_goes h hsound hs hgo
  have hsound' := (step_sound stack hsound).1
  have hle := hm.rest_suffix.length_le
  have hle' := hgoes.rest.length_le
  by_cases hdry : l.rest.length ≤ (l.step ctx stack).rest.length
  · have hwindow : l.recv.2.mbuf.window = l.mbuf.window := (hm.dry (hdry.trans hle')).2.2
    rcases hgoes.dry (hle.trans hdry) with hecho | hp
    · obtain ⟨i, hi⟩ := ihwindow _ (by rwa [hwindow, hw] at hecho) hgoes.inOrder hsound' (by omega) rfl
      exact ⟨i + 1, hi⟩
    · have hstream : l.recv.2.stream = l.stream := hm.stream_eq
      have hshort : l.stream.length < 5 := by rw [← hstream]; exact hp.short
      have hhead := hp.head
      rw [hstream] at hhead
      rcases hhead with h3 | h2
      · exact ⟨0, .inr ⟨hs, hshort, .inl h3⟩⟩
      · by_cases hwr : ∀ i, ¬ Refused (l.kernel.writes.get i)
        · exact ⟨0, .inr ⟨hs, hshort, .inr ⟨h2, hwr⟩⟩⟩
        · obtain ⟨i, hi⟩ := not_forall_not.mp hwr
          obtain ⟨j, hj⟩ := ends_of_refused h hsound hs hshort h2 hi
          exact ⟨j, .inl hj⟩
  · obtain ⟨i, hi⟩ := ihrest _ (by omega) hgoes.inOrder hsound' rfl
    exact ⟨i + 1, hi⟩

/-- A login that has ended stays as it is. -/
theorem run_ended {ctx : Context} {stack : ℕ → Octet} {salt : Vector Octet 4} {fd : Fd} {k : Kernel} {n m : ℕ}
    (h : (run ctx stack salt fd k n).stage ≠ .receiving) (hle : n ≤ m) :
    run ctx stack salt fd k m = run ctx stack salt fd k n := by
  induction m, hle using Nat.le_induction with
  | base => rfl
  | succ m _ ih =>
    rw [run_succ, ih, step_over h]

/-- As long as it goes on, it is in order. -/
theorem run_inOrder {ctx : Context} {stack : ℕ → Octet} {salt : Vector Octet 4} {fd : Fd} {k : Kernel} (hr : k.ReadsOk)
    {n : ℕ} (h : (run ctx stack salt fd k n).stage = .receiving) : (run ctx stack salt fd k n).InOrder := by
  induction n with
  | zero => exact start_inOrder _ hr
  | succ n ih =>
    have hs : (run ctx stack salt fd k n).stage = .receiving := by
      by_contra hno
      exact hno (run_ended hno (Nat.le_succ n) ▸ h)
    rw [run_succ] at h ⊢
    exact step_inOrder (ih hs) (run_sound ctx stack salt fd k n) h

/-- Where it hangs it does not end. -/
theorem run_hung {ctx : Context} {stack : ℕ → Octet} {salt : Vector Octet 4} {fd : Fd} {k : Kernel} (hr : k.ReadsOk)
    {n : ℕ} (h : Hung (run ctx stack salt fd k n)) (m : ℕ) : (run ctx stack salt fd k m).stage = .receiving := by
  have hlater : ∀ i, n ≤ i → Hung (run ctx stack salt fd k i) := by
    intro i hi
    induction i, hi using Nat.le_induction with
    | base => exact h
    | succ i _ ih =>
      rw [run_succ]
      exact ih.step (run_inOrder hr ih.stage) ctx stack
  by_contra hno
  rcases le_total n m with hle | hle
  · exact hno (hlater m hle).stage
  · exact hno (run_ended hno hle ▸ h.stage)

/-- **A login ends just when it never hangs.** -/
theorem terminates_iff (ctx : Context) (stack : ℕ → Octet) (salt : Vector Octet 4) (fd : Fd) {k : Kernel}
    (hr : k.ReadsOk) :
    (∃ n, (run ctx stack salt fd k n).stage ≠ .receiving) ↔ ∀ n, ¬ Hung (run ctx stack salt fd k n) := by
  constructor
  · rintro ⟨n, hn⟩ m hm
    exact hn (run_hung hr hm n)
  · intro hno
    obtain ⟨n, hn⟩ := ends_or_hangs stack (start_inOrder (pgrConnFrontend (pgrConnInit salt) fd) hr)
      (run_sound ctx stack salt fd k 0)
    exact ⟨n, hn.resolve_right (hno n)⟩

/-- The login of `bob` never hangs. -/
theorem terminates_bob :
    ¬ Hung (run someContext (fun _ => 0) someSalt 3 bobKernel 0) ∧
      ¬ Hung (run someContext (fun _ => 0) someSalt 3 bobKernel 1) := by
  have hr : bobKernel.ReadsOk := fun i => by cases i <;> exact ReadChoice.noConfusion
  have hnever := (terminates_iff someContext (fun _ => 0) someSalt 3 hr).mp ⟨2, by decide +kernel⟩
  exact ⟨hnever 0, hnever 1⟩

/-- A client that sends the octet `3`, and nothing else, is served for ever. -/
theorem not_terminates :
    ¬ ∃ n, (run someContext (fun _ => 0) someSalt 3 (Kernel.eager fun _ => [3]) n).stage ≠ .receiving := by
  rintro ⟨n, hn⟩
  have h0 : Hung (run someContext (fun _ => 0) someSalt 3 (Kernel.eager fun _ => [3]) 0) :=
    ⟨rfl, by decide, .inl (by decide)⟩
  exact hn (run_hung (Kernel.eager_readsOk _) h0 n)

end Accept

end PgRouter.Login
