import PgRouter.Wire.Recognition
import PgRouter.Wire.ShortWrites
import PgRouter.Wire.Starvation
import PgRouter.Worker.Routing
import PgRouter.Worker.Traffic

/-!
# COPY IN

After a CopyInResponse has been relayed, the client sends CopyData messages, and the last message is CopyDone
(`'c'`) or CopyFail (`'f'`). `handle_client` relays them one by one in a loop of its own, and leaves it behind a
message of type `'c'` or `'F'`.

## What is proved

The loop relays the messages up to and including the one that ends COPY IN, and nothing behind it, as long as this
is CopyDone (`copyEnds_iff`). It also has to see each message as a whole, which takes a length below 2^24 and room
for five octets behind `start`, and no message before the last may be of type `'F'`. A CopyFail does not end it: the
loop takes the message behind it for part of the data.
-/

namespace PgRouter.Worker

open Foundation Wire

/-- `pgr_mbuf_relay` relays an ordinary message. -/
theorem pgrMbufRelay_ordinary {msg : Message} (hmsg : msg.Ordinary) {m : Mbuf} (h : m.Wf) (hav : 5 ≤ m.available)
    {k : Kernel} (hr : k.ReadsOk) (hw : k.WritesSome) {rest : List Octet}
    (hp : pending m k = msg.octets ++ rest) {rc : ℤ} {m' : Mbuf} {k' : Kernel}
    (hres : pgrMbufRelay m k = (rc, m', k')) :
    rc = 0 ∧ m'.start = m.start ∧ pending m' k' = rest ∧
      k'.sent = k.sent ++ msg.octets.map (Prod.mk m.outfd) := by
  have hsize : size m = msg.octets.length := hmsg.size_eq h hav hp
  have htake : (pending m k).take (size m) = msg.octets := by rw [hsize, hp, List.take_left]
  have hall : size m ≤ (pending m k).length := by
    rw [hsize, hp, List.length_append]
    omega
  have h0 := pgrMbufRelay_writesSome h hav hr hw hall
  rw [hres] at h0
  obtain ⟨hstart, -, hpending, w, hsent, -, hrc⟩ := relay_law h hav hr hall hres
  obtain rfl : w = msg.octets := (hrc.mp h0).trans htake
  exact ⟨h0, hstart, by rw [hpending, hsize, hp, List.drop_left], hsent⟩

namespace Session

/-! ### A message of the sub-protocol -/

/-- `p` is what the client has still to say, and nothing keeps the session from passing it on. -/
structure Copying (s : Session) (p : List Octet) : Prop where
  /-- The buffers are in order. -/
  sound : s.Sound
  /-- `fe` is written to the current backend. -/
  out : s.fe.outfd = s.befd
  /-- No `read` fails. -/
  reads : s.kernel.ReadsOk
  /-- No `write` fails. -/
  writes : s.kernel.WritesSome
  /-- There is room for the beginning of a message. -/
  room : s.fe.start + 5 ≤ s.fe.len
  /-- `p` is pending. -/
  pending : pending s.fe s.kernel = p

/-- Where a message of type `t` leaves the loop of the sub-protocol. -/
def afterCopied (t : Octet) : Pc := if t = 0x63 ∨ t = 0x46 then .beRecv else .copyRecv

/-- **A message is relayed**, and its type says where the session goes on. -/
theorem Copying.step_message {s : Session} {msg : Message} {rest : List Octet} (h : s.Copying (msg.octets ++ rest))
    (pc : s.pc = .copyRecv) (hmsg : msg.Ordinary) {t : Octet} (ht : msg.type = some t) :
    s.step.Copying rest ∧ s.step.befd = s.befd ∧
      s.step.kernel.sent = s.kernel.sent ++ msg.octets.map (Prod.mk s.befd) ∧ s.step.pc = afterCopied t := by
  have hfive : 5 ≤ (PgRouter.Wire.pending s.fe s.kernel).length := by
    have := hmsg.five_le
    rw [h.pending, List.length_append]
    omega
  obtain ⟨he, hk, -⟩ := pgrMbufRecv_spec h.sound.fe s.kernel rfl
  obtain ⟨hav, hrc⟩ := pgrMbufRecv_five h.sound.fe h.room h.reads hfive rfl
  obtain ⟨h0, hstart, hpending, hsent⟩ := pgrMbufRelay_ordinary hmsg he.wf hav (he.follows.readsOk h.reads)
    (he.follows.writesSome h.writes) (he.pending.trans h.pending) rfl
  have hsafe := (pgrMbufRecv_safe h.sound.fe s.kernel).trans (pgrMbufRelay_safe he.wf s.recvFe.2.kernel)
  have htype : pgrMbufMsgtype s.recvFe.2.fe = t.toInt8.toInt :=
    msgtype_of_pending (lt_of_lt_of_le (by decide) hav) ht (he.pending.trans h.pending)
  have hc : t.toInt8.toInt = chr 'c' ↔ t = 0x63 := toInt8_eq_iff (n := 'c'.toNat) (by decide)
  have hF : t.toInt8.toInt = chr 'F' ↔ t = 0x46 := toInt8_eq_iff (n := 'F'.toNat) (by decide)
  have hround : s.step = s.recvFe.2.relayFe.2.goto (afterCopied t) := by
    have hrecv : ¬ s.recvFe.1 < 0 := not_lt.mpr ((Int.natCast_nonneg _).trans_eq hrc.symm)
    have hrelay : ¬ s.recvFe.2.relayFe.1 ≠ 0 := not_not.mpr h0
    rw [step, pc]
    simp only [copyRecv, if_neg hrecv, if_neg hrelay, htype, ne_eq, hc, hF, ← not_or, ite_not, afterCopied]
    split <;> rfl
  rw [hround]
  refine ⟨⟨h.sound.recvFe.relayFe.goto _, hsafe.outfd.trans h.out, hsafe.follows.readsOk h.reads,
    hsafe.follows.writesSome h.writes, ?_, hpending⟩, rfl, hsent.trans ?_, rfl⟩
  · show s.recvFe.2.relayFe.2.fe.start + 5 ≤ s.recvFe.2.relayFe.2.fe.len
    rw [show s.recvFe.2.relayFe.2.fe.start = s.fe.start from hstart.trans hk.start,
      show s.recvFe.2.relayFe.2.fe.len = s.fe.len from hsafe.len]
    exact h.room
  · rw [he.sent, List.map_nil, List.append_nil, he.outfd, h.out]

/-- A message that does not leave the loop. -/
structure GoesOn (msg : Message) : Prop extends msg.Ordinary where
  /-- It is not a CopyDone. -/
  not_done : msg.type ≠ some 0x63
  /-- It is not of type `'F'`. -/
  not_call : msg.type ≠ some 0x46

/-- **The loop relays** any number of messages that do not leave it. -/
theorem Copying.run {s : Session} {msgs : List Message} {rest : List Octet} (h : s.Copying (streamOf msgs ++ rest))
    (pc : s.pc = .copyRecv) (hmsgs : ∀ msg ∈ msgs, GoesOn msg) :
    (∀ i ≤ msgs.length, (step^[i] s).pc = .copyRecv) ∧ (step^[msgs.length] s).Copying rest ∧
      (step^[msgs.length] s).befd = s.befd ∧
      (step^[msgs.length] s).kernel.sent = s.kernel.sent ++ (streamOf msgs).map (Prod.mk s.befd) := by
  induction msgs generalizing s with
  | nil =>
    refine ⟨fun i hi => ?_, h, rfl, (List.append_nil _).symm⟩
    rw [Nat.le_zero.mp hi]
    exact pc
  | cons msg msgs ih =>
    have hmsg := hmsgs msg List.mem_cons_self
    obtain ⟨t, ht⟩ := Option.isSome_iff_exists.mp hmsg.typed
    rw [streamOf_cons, List.append_assoc] at h
    obtain ⟨h', hbefd, hsent, hpc⟩ := h.step_message pc hmsg.toOrdinary ht
    have hstay : ¬ (t = 0x63 ∨ t = 0x46) := by
      rintro (rfl | rfl)
      · exact hmsg.not_done ht
      · exact hmsg.not_call ht
    rw [afterCopied, if_neg hstay] at hpc
    obtain ⟨hpcs, hcopying, hbefds, hsents⟩ := ih h' hpc fun m hm => hmsgs m (List.mem_cons_of_mem msg hm)
    refine ⟨fun i hi => ?_, hcopying, hbefds.trans hbefd, ?_⟩
    · cases i with
      | zero => exact pc
      | succ i => exact hpcs i (Nat.le_of_succ_le_succ hi)
    · rw [List.length_cons, Function.iterate_succ_apply, hsents, hsent, hbefd, List.append_assoc, ← List.map_append,
        streamOf_cons]

/-- As many messages later, the loop is left behind a message that leaves it. -/
theorem Copying.run_last {s : Session} {msgs : List Message} {msg : Message} {rest : List Octet}
    (h : s.Copying (streamOf (msgs ++ [msg]) ++ rest)) (pc : s.pc = .copyRecv) (hmsgs : ∀ m ∈ msgs, GoesOn m)
    (hmsg : msg.Ordinary) (hlast : msg.type = some 0x63 ∨ msg.type = some 0x46) :
    (∀ i ≤ msgs.length, (step^[i] s).pc = .copyRecv) ∧ (step^[msgs.length + 1] s).pc = .beRecv ∧
      (step^[msgs.length + 1] s).Copying rest ∧
      (step^[msgs.length + 1] s).kernel.sent = s.kernel.sent ++ (streamOf (msgs ++ [msg])).map (Prod.mk s.befd) := by
  rw [streamOf_append, List.append_assoc] at h
  obtain ⟨hpcs, hcopying, hbefd, hsent⟩ := h.run pc hmsgs
  have hone : streamOf [msg] = msg.octets := List.append_nil _
  rw [hone] at hcopying
  obtain ⟨t, ht⟩ := Option.isSome_iff_exists.mp hmsg.typed
  obtain ⟨h', -, hsent', hpc⟩ := hcopying.step_message (hpcs _ le_rfl) hmsg ht
  have hleave : t = 0x63 ∨ t = 0x46 := hlast.imp (fun hl => Option.some.inj (ht.symm.trans hl))
    (fun hl => Option.some.inj (ht.symm.trans hl))
  rw [afterCopied, if_pos hleave] at hpc
  rw [Function.iterate_succ_apply']
  refine ⟨hpcs, hpc, h', ?_⟩
  rw [hsent', hsent, hbefd, List.append_assoc, ← List.map_append, streamOf_append, hone]

/-! ### Leaving the loop -/

/-- A message that is relayed goes from what is pending, and the one behind which the loop is left is not empty. -/
theorem pending_copied {s : Session} (hs : s.Sound) (pc : s.pc = .copyRecv) (hpc : s.step.pc ≠ .shutdown) :
    (pending s.step.fe s.step.kernel).length ≤ (pending s.fe s.kernel).length ∧
      (s.step.pc = .beRecv → (pending s.step.fe s.step.kernel).length < (pending s.fe s.kernel).length) := by
  obtain ⟨he, -, -⟩ := pgrMbufRecv_spec hs.fe s.kernel rfl
  have hround := s.copyRecv_round pc
  have hstep : s.step = s.copyRecv := by rw [step, pc]
  rw [hstep] at hpc ⊢
  have hrecv : (pending s.recvFe.2.fe s.recvFe.2.kernel).length = (pending s.fe s.kernel).length :=
    congrArg List.length he.pending
  generalize s.copyRecv = s' at hround hpc ⊢
  cases hround with
  | copyFailed | copyRefused => exact absurd rfl hpc
  | copied pc' _ recv relay type =>
    have hav : 5 ≤ s.recvFe.2.fe.available := by
      by_contra hlt
      have hshort : s.recvFe.2.relayFe.1 = 1 := congrArg Prod.fst (pgrMbufRelay_short (by omega))
      rw [relay] at hshort
      exact absurd hshort (by decide)
    obtain ⟨u, w, hu, -, -, -, -, hrc, -⟩ := pgrMbufRelay_spec (m := s.recvFe.2.fe) he.wf hav
      (k := s.recvFe.2.kernel) rfl
    have hlen := congrArg List.length hu.pending
    rw [List.length_append, (hrc.mp relay).1, hrecv] at hlen
    refine ⟨?_, fun hleft => ?_⟩
    · exact le_of_le_of_eq (Nat.le_add_left _ _) hlen
    · have htype : pgrMbufMsgtype s.recvFe.2.fe = chr 'c' ∨ pgrMbufMsgtype s.recvFe.2.fe = chr 'F' := by
        rcases type with ⟨htype, -⟩ | ⟨-, -, rfl⟩
        · exact htype
        · cases hleft
      have h0 : s.recvFe.2.fe.buf s.recvFe.2.fe.start ≠ 0 := by
        rcases htype with htype | htype
        · exact ne_zero_of_msgtype htype (by decide)
        · exact ne_zero_of_msgtype htype (by decide)
      have hpos := size_pos hav h0
      exact lt_of_lt_of_eq (Nat.lt_add_of_pos_left hpos) hlen
  | next pc₁ | feFailed pc₁ | feRefused pc₁ | closed pc₁ | feMore pc₁ | feLast pc₁ | beFailed pc₁ | badRouting pc₁
  | beRefused pc₁ | replied _ pc₁ | draining pc₁ | drained pc₁ | redirected pc₁ | halted pc₁ =>
    rw [pc] at pc₁
    cases pc₁

/-- When the loop is left, there is less pending than before. -/
theorem pending_left {s : Session} (hs : s.Sound) {n : ℕ} (hin : ∀ i < n, (step^[i] s).pc = .copyRecv)
    (hpc : s.pc = .copyRecv) (hleft : (step^[n] s).pc = .beRecv) :
    (pending (step^[n] s).fe (step^[n] s).kernel).length < (pending s.fe s.kernel).length := by
  induction n generalizing s with
  | zero =>
    have hleft : s.pc = .beRecv := hleft
    rw [hpc] at hleft
    cases hleft
  | succ n ih =>
    rw [Function.iterate_succ_apply] at hleft ⊢
    have hs' := (s.step_round.sound hs).1
    rcases Nat.eq_zero_or_pos n with rfl | hpos
    · have hleft : s.step.pc = .beRecv := hleft
      exact (pending_copied hs hpc (by rw [hleft]; nofun)).2 hleft
    · have hpc' : s.step.pc = .copyRecv := hin 1 (by omega)
      have hlt := ih hs' (fun i hi => hin (i + 1) (by omega)) hpc' hleft
      exact hlt.trans_le (pending_copied hs hpc (by rw [hpc']; nofun)).1

end Session

/-! ### Where COPY IN ends -/

/-- A session that is in the sub-protocol, with a client that sends the messages `pre`, none of which ends it, then
`last`, which does, and then `rest`. -/
structure CopyIn (s : Session) (pre : List Message) (last : Message) (rest : List Octet) : Prop where
  /-- A CopyInResponse has been relayed. -/
  pc : s.pc = .copyRecv
  /-- No `read` fails. -/
  reads : s.kernel.ReadsOk
  /-- No `write` fails. -/
  writes : s.kernel.WritesSome
  /-- The messages before the last have a type, and are neither CopyDone nor CopyFail. -/
  data : ∀ msg ∈ pre, msg.type.isSome ∧ msg.type ≠ some 0x63 ∧ msg.type ≠ some 0x66
  /-- The last message is a CopyDone or a CopyFail. -/
  ends : last.type = some 0x63 ∨ last.type = some 0x66
  /-- This is what the client has to say. -/
  pending : pending s.fe s.kernel = streamOf (pre ++ [last]) ++ rest

/-- The sub-protocol ends when `w` has been sent to the current backend, and nothing else has been sent and `rest` is
pending. -/
def CopyEnds (s : Session) (w rest : List Octet) : Prop :=
  ∃ n, (∀ i < n, (Session.step^[i] s).pc = .copyRecv) ∧ (Session.step^[n] s).pc = .beRecv ∧
    (Session.step^[n] s).kernel.sent = s.kernel.sent ++ w.map (Prod.mk s.befd) ∧
    pending (Session.step^[n] s).fe (Session.step^[n] s).kernel = rest

/-- The last message is one behind which the loop is left, none of the others is, and the loop has room for them. -/
structure Leaves (s : Session) (pre : List Message) (last : Message) : Prop where
  /-- There is room for the beginning of a message. -/
  room : s.fe.start + 5 ≤ s.fe.len
  /-- No message before the last is of type `'F'`. -/
  not_call : ∀ msg ∈ pre, msg.type ≠ some 0x46
  /-- The last message is a CopyDone. -/
  done : last.type = some 0x63

section CopyIn

variable {s : Session} {pre : List Message} {last : Message} {rest : List Octet}

theorem CopyIn.copying (h : CopyIn s pre last rest) {opened : Bool} (hw : s.Wired opened)
    (hroom : s.fe.start + 5 ≤ s.fe.len) : s.Copying (streamOf (pre ++ [last]) ++ rest) :=
  ⟨hw.sound, hw.out, h.reads, h.writes, hroom, h.pending⟩

/-- The last message is ordinary if it is short. -/
theorem CopyIn.last_ordinary (h : CopyIn s pre last rest) (hshort : ∀ msg ∈ pre ++ [last], msg.lengthField < 2 ^ 24) :
    last.Ordinary := by
  refine ⟨?_, hshort last (List.mem_append_right pre (List.mem_singleton_self last))⟩
  rcases h.ends with ht | ht
  · rw [ht]; rfl
  · rw [ht]; rfl

/-- A message before the last does not leave the loop if it is short and not of type `'F'`. -/
theorem CopyIn.goesOn (h : CopyIn s pre last rest) (hshort : ∀ msg ∈ pre ++ [last], msg.lengthField < 2 ^ 24)
    {msg : Message} (hmem : msg ∈ pre) (hcall : msg.type ≠ some 0x46) : Session.GoesOn msg := by
  obtain ⟨htyped, hdone, -⟩ := h.data msg hmem
  exact ⟨⟨htyped, hshort msg (List.mem_append_left [last] hmem)⟩, hdone, hcall⟩

/-- Where the loop is left as it is to be, it ends right. -/
theorem copyEnds_of_leaves (h : CopyIn s pre last rest) {opened : Bool} (hw : s.Wired opened)
    (hshort : ∀ msg ∈ pre ++ [last], msg.lengthField < 2 ^ 24) (hl : Leaves s pre last) :
    CopyEnds s (streamOf (pre ++ [last])) rest := by
  obtain ⟨hpcs, hpc, hcopying, hsent⟩ := (h.copying hw hl.room).run_last h.pc
    (fun msg hmem => h.goesOn hshort hmem (hl.not_call msg hmem)) (h.last_ordinary hshort) (.inl hl.done)
  exact ⟨pre.length + 1, fun i hi => hpcs i (Nat.le_of_lt_succ hi), hpc, hsent, hcopying.pending⟩

/-- Without room for five octets the session shuts down. -/
theorem room_of_copyEnds (h : CopyIn s pre last rest) {opened : Bool} (hw : s.Wired opened) {w : List Octet}
    (he : CopyEnds s w rest) : s.fe.start + 5 ≤ s.fe.len := by
  by_contra hroom
  obtain ⟨n, -, hpc, -⟩ := he
  obtain ⟨he, hk, -⟩ := pgrMbufRecv_spec hw.sound.fe s.kernel rfl
  have hav : s.recvFe.2.fe.available < 5 := by
    have hfill : s.recvFe.2.fe.fill ≤ s.recvFe.2.fe.len := he.wf.fill_le
    have hlen : s.recvFe.2.fe.len = s.fe.len := he.len
    have hstart : s.recvFe.2.fe.start = s.fe.start := hk.start
    unfold Mbuf.available
    omega
  have hshut : s.step.pc = .shutdown := by
    have hrelay : s.recvFe.2.relayFe.1 = 1 := congrArg Prod.fst (pgrMbufRelay_short hav)
    rw [Session.step, h.pc]
    simp only [Session.copyRecv, hrelay]
    split <;> rfl
  have hfix : ∀ {s : Session}, s.pc = .shutdown → ∀ n, Session.step^[n] s = s := fun hpc n =>
    Function.iterate_fixed (by rw [Session.step, hpc]) n
  cases n with
  | zero => cases h.pc.symm.trans hpc
  | succ n =>
    rw [Function.iterate_succ_apply, hfix hshut, hshut] at hpc
    cases hpc

/-- A message of type `'F'` before the last leaves the loop too early. -/
theorem not_call_of_copyEnds (h : CopyIn s pre last rest) {opened : Bool} (hw : s.Wired opened)
    (hshort : ∀ msg ∈ pre ++ [last], msg.lengthField < 2 ^ 24) {w : List Octet} (he : CopyEnds s w rest) :
    ∀ msg ∈ pre, msg.type ≠ some 0x46 := by
  intro c hc hcall
  have hroom := room_of_copyEnds h hw he
  -- the first of them
  obtain ⟨msg, hfind⟩ := Option.isSome_iff_exists.mp
    (List.find?_isSome.mpr ⟨c, hc, decide_eq_true hcall⟩ : (pre.find? fun m => m.type = some 0x46).isSome)
  obtain ⟨hmsg, a, b, rfl, ha⟩ := List.find?_eq_some_iff_append.mp hfind
  have hcopying : s.Copying (streamOf (a ++ [msg]) ++ (streamOf (b ++ [last]) ++ rest)) := by
    have hnil : streamOf [] = [] := rfl
    have := h.copying hw hroom
    simpa only [streamOf_append, streamOf_cons, hnil, List.append_assoc, List.nil_append, List.append_nil] using this
  obtain ⟨hpcs, hpc', hcopied, -⟩ := hcopying.run_last h.pc
    (fun m hm => h.goesOn hshort (List.mem_append_left _ hm) (by simpa using ha m hm))
    ⟨by rw [of_decide_eq_true hmsg]; rfl, hshort msg (by simp)⟩ (.inr (of_decide_eq_true hmsg))
  obtain ⟨n, hin, hpc, -, hpending⟩ := he
  have hn : n = a.length + 1 := first_unique (P := fun i => (Session.step^[i] s).pc = .copyRecv) hin
    (by rw [hpc]; nofun) (fun i hi => hpcs i (Nat.le_of_lt_succ hi)) (by rw [hpc']; nofun)
  rw [hn, hcopied.pending] at hpending
  have hlen := congrArg List.length hpending
  have hfive := (h.last_ordinary hshort).five_le
  rw [streamOf_append, List.length_append, List.length_append, streamOf_cons, List.length_append] at hlen
  omega

/-- A CopyFail does not leave the loop. -/
theorem done_of_copyEnds (h : CopyIn s pre last rest) {opened : Bool} (hw : s.Wired opened)
    (hshort : ∀ msg ∈ pre ++ [last], msg.lengthField < 2 ^ 24) {w : List Octet} (he : CopyEnds s w rest) :
    last.type = some 0x63 := by
  refine h.ends.resolve_right fun hfail => ?_
  have hroom := room_of_copyEnds h hw he
  have hcall := not_call_of_copyEnds h hw hshort he
  have hgoes : ∀ msg ∈ pre ++ [last], Session.GoesOn msg := by
    intro msg hmem
    rcases List.mem_append.mp hmem with hmem | hmem
    · exact h.goesOn hshort hmem (hcall msg hmem)
    · obtain rfl := List.mem_singleton.mp hmem
      exact ⟨h.last_ordinary hshort, by rw [hfail]; decide, by rw [hfail]; decide⟩
  obtain ⟨hpcs, hcopied, -⟩ := (h.copying hw hroom).run h.pc hgoes
  obtain ⟨n, hin, hpc, -, hpending⟩ := he
  -- so the loop is left behind a message that comes later, of which nothing may be missing in `rest`
  have hlt : (pre ++ [last]).length < n := by
    by_contra hle
    rw [hpcs n (by omega)] at hpc
    cases hpc
  obtain ⟨d, rfl⟩ := Nat.exists_eq_add_of_lt hlt
  rw [show (pre ++ [last]).length + d + 1 = d + 1 + (pre ++ [last]).length by omega] at hin hpc hpending
  rw [Function.iterate_add_apply] at hpc hpending
  have hless := Session.pending_left hcopied.sound (fun i hi => by
    rw [← Function.iterate_add_apply]
    exact hin _ (by omega)) (hpcs _ le_rfl) hpc
  rw [hpending, hcopied.pending] at hless
  exact absurd hless (lt_irrefl _)

end CopyIn

/-- **Where COPY IN ends.** In every session that is in the sub-protocol, it ends where the protocol ends it if the
loop is left as it is to be and the messages are short; of short messages, only if it is left so. -/
theorem copyEnds_iff (fds : Descriptors) (kernel : Kernel) (k : ℕ) {pre : List Message} {last : Message}
    {rest : List Octet} (h : CopyIn (Session.step^[k] (Session.start fds kernel)) pre last rest) :
    let s := Session.step^[k] (Session.start fds kernel)
    let short := ∀ msg ∈ pre ++ [last], msg.lengthField < 2 ^ 24
    (short ∧ Leaves s pre last → CopyEnds s (streamOf (pre ++ [last])) rest) ∧
      (short → CopyEnds s (streamOf (pre ++ [last])) rest → Leaves s pre last) := by
  intro s short
  have hw := run_wired fds kernel k
  exact ⟨fun ⟨hshort, hl⟩ => copyEnds_of_leaves h hw hshort hl, fun hshort he =>
    ⟨room_of_copyEnds h hw he, not_call_of_copyEnds h hw hshort he, done_of_copyEnds h hw hshort he⟩⟩

/-- A CopyDone message. -/
def COPY_DONE : Message := ⟨some 0x63, by decide, []⟩

/-- A CopyFail message without a text. -/
def COPY_FAIL : Message := ⟨some 0x66, by decide, [0]⟩

/-- A CopyData message of one octet. -/
def COPY_DATA : Message := ⟨some 0x64, by decide, [0x31]⟩

/-- A session whose client sends a query, then `msgs`, and whose reader answers the query with a CopyInResponse. -/
def copyInKernel (msgs : List Message) : Kernel :=
  someKernel (queryMessage [] ++ streamOf msgs) [0x47, 0, 0, 0, 7, 0, 0, 0] []

theorem copyIn_some {pre : List Message} {last : Message}
    (hdata : ∀ msg ∈ pre, msg.type.isSome ∧ msg.type ≠ some 0x63 ∧ msg.type ≠ some 0x66)
    (hlast : last.type = some 0x63 ∨ last.type = some 0x66)
    (hpc : (Session.step^[3] (Session.start someDescriptors (copyInKernel (pre ++ [last])))).pc = .copyRecv)
    (hpending : let s := Session.step^[3] (Session.start someDescriptors (copyInKernel (pre ++ [last])))
      pending s.fe s.kernel = streamOf (pre ++ [last])) :
    CopyIn (Session.step^[3] (Session.start someDescriptors (copyInKernel (pre ++ [last])))) pre last [] := by
  have hfollows := Session.run_follows (Session.start_sound someDescriptors (copyInKernel (pre ++ [last]))) 3
  exact ⟨hpc, hfollows.readsOk (Kernel.eager_readsOk _), hfollows.writesSome fun _ => ⟨nofun, nofun⟩, hdata, hlast,
    hpending.trans (List.append_nil _).symm⟩

/-- With a CopyDone it ends right. -/
theorem copyEnds_done : CopyEnds (Session.step^[3] (Session.start someDescriptors
    (copyInKernel [COPY_DATA, COPY_DONE])))
    (streamOf [COPY_DATA, COPY_DONE]) [] := by
  have h := @copyIn_some [COPY_DATA] COPY_DONE (by decide) (by decide) (by decide +kernel) (by decide +kernel)
  exact (copyEnds_iff someDescriptors _ 3 h).1 ⟨by decide, by decide +kernel, by decide, rfl⟩

/-- With a CopyFail it does not. -/
theorem not_copyEnds_fail : ¬ ∀ (fds : Descriptors) (kernel : Kernel) (k : ℕ) (pre : List Message) (last : Message)
    (rest : List Octet), CopyIn (Session.step^[k] (Session.start fds kernel)) pre last rest →
      CopyEnds (Session.step^[k] (Session.start fds kernel)) (streamOf (pre ++ [last])) rest := by
  intro hall
  have h := @copyIn_some [COPY_DATA] COPY_FAIL (by decide) (by decide) (by decide +kernel) (by decide +kernel)
  have hends := hall someDescriptors _ 3 _ _ _ h
  exact absurd (done_of_copyEnds h (run_wired _ _ 3) (by decide) hends) (by decide)

end PgRouter.Worker
