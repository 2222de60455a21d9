import PgRouter.Foundation.Loop
import PgRouter.Wire.Chunks
import PgRouter.Wire.Recognition

/-!
# Draining

`pgr_mbuf_drain` discards messages up to one of a certain type. It looks neither at whether `pgr_mbuf_discard`
has discarded anything nor at whether `pgr_mbuf_recv` has received anything.

## What is proved

No `read` fails, but how much it delivers is up to the kernel. Of a stream of messages that contains one of the
type, exactly the messages up to the first such are drained (`drain_law`). Of any stream that ends, whatever it
consists of, the loop returns, and what it returns is true, unless it gets to a state in which it stalls, or takes
for a message what is none, or does not see that there is one (`drainEnds_iff`).
-/

namespace PgRouter.Wire

open Foundation

/-- A round of `pgr_mbuf_drain`, of the buffer and the kernel. -/
def drainStep (until' : ℤ) (s : Mbuf × Kernel) : Except Outcome (Mbuf × Kernel) := drainRound until' s.1 s.2

/-- `pgr_mbuf_drain` returns `r`. -/
def Drains (until' : ℤ) (m : Mbuf) (k : Kernel) (r : Outcome) : Prop :=
  ∃ s, Gets (drainStep until') (m, k) s ∧ drainStep until' s = .error r

/-! ### A stream of messages -/

/-- The first message is discarded. -/
theorem Message.Ordinary.discard {msg : Message} (hmsg : msg.Ordinary) {m : Mbuf} (h : m.Wf) {k : Kernel}
    (hr : k.ReadsOk) (hav : 5 ≤ m.available) {rest : List Octet} (hp : pending m k = msg.octets ++ rest) :
    Effect m k msg.octets [] (pgrMbufDiscard m k).2.1 (pgrMbufDiscard m k).2.2 ∧ Kept m (pgrMbufDiscard m k).2.1 ∧
      pending (pgrMbufDiscard m k).2.1 (pgrMbufDiscard m k).2.2 = rest := by
  obtain ⟨u, he, hk, hdiscard⟩ := pgrMbufDiscard_spec h hav (k := k) rfl
  have hu : u = msg.octets := by rw [(hdiscard hr).2, hmsg.size_eq h hav hp, hp, List.take_left]
  rw [hu] at he
  exact ⟨he, hk, List.append_cancel_left (he.pending.trans hp)⟩

/-- The type of the first message. -/
theorem Message.Plain.msgtype {msg : Message} (hmsg : msg.Plain) {m : Mbuf} (h : m.Wf) {k : Kernel}
    (hav : 5 ≤ m.available) {rest : List Octet} (hp : pending m k = msg.octets ++ rest) {t : Octet}
    (ht : msg.type = some t) : pgrMbufMsgtype m = t.toNat := by
  have hfirst := getElem?_pending h k (i := 0) (by omega)
  rw [hp, Message.octets, ht] at hfirst
  refine msgtype_of_head? ?_ (fun h0 => msg.type_ne (by rw [ht, h0])) (hmsg.ascii t ht)
  rw [head?_window (by omega)]
  exact hfirst.symm

/-- In the last round a message of the type that is looked for is discarded. -/
theorem Message.Plain.drainRound_last {msg : Message} (hmsg : msg.Plain) {m : Mbuf} (h : m.Wf) {k : Kernel}
    (hav : 5 ≤ m.available) {rest : List Octet} (hp : pending m k = msg.octets ++ rest) {t : Octet}
    (ht : msg.type = some t) :
    drainRound t.toNat m k = .error (0, (pgrMbufDiscard m k).2.1, (pgrMbufDiscard m k).2.2) := by
  have htype := hmsg.msgtype h hav hp ht
  rw [drainRound, htype]
  simp only [if_neg (not_lt.mpr (Int.natCast_nonneg t.toNat)), if_true]

/-- In the others a message of another type is, and the next one is received. -/
theorem Message.Plain.drainRound_other {msg : Message} (hmsg : msg.Plain) {m : Mbuf} (h : m.Wf) {k : Kernel}
    (hav : 5 ≤ m.available) {rest : List Octet} (hp : pending m k = msg.octets ++ rest) {t : Octet}
    (ht : msg.type ≠ some t) :
    drainRound t.toNat m k = .ok (pgrMbufRecv (pgrMbufDiscard m k).2.1 (pgrMbufDiscard m k).2.2).2 := by
  obtain ⟨t', ht'⟩ := Option.isSome_iff_exists.mp hmsg.typed
  have htype := hmsg.msgtype h hav hp ht'
  have hne : (t'.toNat : ℤ) ≠ t.toNat := by
    intro heq
    rw [UInt8.toNat_inj.mp (Int.ofNat_inj.mp heq)] at ht'
    exact ht ht'
  rw [drainRound, htype]
  simp only [if_neg (not_lt.mpr (Int.natCast_nonneg t'.toNat)), if_neg hne]

/-- **The drain law.** However the reads divide it, of a stream of messages exactly those up to the first one of
the type `t` are drained, and what has been sent and is kept stays. -/
theorem drain_law {m : Mbuf} (h : m.Wf) (hav : 5 ≤ m.available) {k : Kernel} (hr : k.ReadsOk) {t : Octet}
    {pre : List Message} (hpre : ∀ p ∈ pre, p.Plain ∧ p.type ≠ some t) {msg : Message} (hmsg : msg.Plain)
    (ht : msg.type = some t) {rest : List Octet} (hp : pending m k = streamOf pre ++ (msg.octets ++ rest)) :
    ∃ m' k', Drains t.toNat m k (0, m', k') ∧ pending m' k' = rest ∧ m'.start = m.start ∧
      slice m'.buf 0 m.start = slice m.buf 0 m.start := by
  suffices hdrain : ∃ m' k', Drains t.toNat m k (0, m', k') ∧ pending m' k' = rest ∧ Kept m m' by
    obtain ⟨m', k', hdrains, hrest, hk⟩ := hdrain
    exact ⟨m', k', hdrains, hrest, hk.start, hk.below⟩
  induction pre generalizing m k with
  | nil =>
    obtain ⟨-, hk, hrest⟩ := hmsg.discard h hr hav hp
    exact ⟨_, _, ⟨(m, k), .refl _, hmsg.drainRound_last h hav hp ht⟩, hrest, hk⟩
  | cons p pre ih =>
    obtain ⟨⟨hplain, htype⟩, hpre⟩ := List.forall_mem_cons.mp hpre
    rw [streamOf_cons, List.append_assoc] at hp
    obtain ⟨he, hk, hrest⟩ := hplain.discard h hr hav hp
    obtain ⟨he', hk', -⟩ := pgrMbufRecv_spec he.wf (pgrMbufDiscard m k).2.2 rfl
    have hp' := he'.pending
    rw [List.nil_append, hrest] at hp'
    have hroom : (pgrMbufDiscard m k).2.1.start + 5 ≤ (pgrMbufDiscard m k).2.1.len := by
      rw [hk.start, he.len]
      have := h.fill_le
      unfold Mbuf.available at hav
      omega
    -- what follows is at least one message, so its first five octets have been received
    have hav' : 5 ≤ (pgrMbufRecv (pgrMbufDiscard m k).2.1 (pgrMbufDiscard m k).2.2).2.1.available := by
      refine (pgrMbufRecv_seen he.wf (he.follows.readsOk hr) hroom).elim id fun hend => ?_
      have hle : msg.octets.length ≤ (streamOf pre ++ (msg.octets ++ rest)).length := by
        rw [List.length_append, List.length_append]
        omega
      rw [← hp', length_pending, hend] at hle
      exact hmsg.five_le.trans hle
    obtain ⟨m', k', ⟨s, hgets, hret⟩, hdrained, hkept⟩ :=
      ih he'.wf hav' (he'.follows.readsOk (he.follows.readsOk hr)) hpre hp'
    exact ⟨m', k', ⟨s, .head (hplain.drainRound_other h hav hp htype) hgets, hret⟩, hdrained,
      (hk.trans hk').trans hkept⟩

/-- A message with a type octet below 128 and a short payload. -/
theorem Message.plain_of_lt {t : Octet} (h : some t ≠ some 0) {payload : List Octet} (ht : t < 0x80)
    (hlen : payload.length + 4 < 2 ^ 24) : (⟨some t, h, payload⟩ : Message).Plain :=
  ⟨⟨rfl, hlen⟩, fun _ ht' => Option.some.inj ht' ▸ ht⟩

/-- A notice, and then what is looked for. -/
theorem drain_law_ready :
    let m := (pgrMbufSetfd (pgrMbufNew 16) 3 4).put [0x4e, 0, 0, 0, 5]
    let k := Kernel.eager fun _ => [7, 0x5a, 0, 0, 0, 5, 0x49, 0x4e]
    ∃ m' k', Drains (0x5a : Octet).toNat m k (0, m', k') ∧ pending m' k' = [0x4e] ∧ m'.start = 0 ∧
      slice m'.buf 0 0 = slice m.buf 0 0 := by
  intro m k
  have hwf : m.Wf := ⟨by decide, by decide⟩
  have hnotice : ∀ p ∈ [(⟨some 0x4e, by decide, [7]⟩ : Message)], p.Plain ∧ p.type ≠ some (0x5a : Octet) :=
    List.forall_mem_singleton.mpr ⟨Message.plain_of_lt _ (by decide) (by decide), by decide⟩
  have hready : (⟨some 0x5a, by decide, [0x49]⟩ : Message).Plain := Message.plain_of_lt _ (by decide) (by decide)
  have hp : pending m k = streamOf [⟨some 0x4e, by decide, [7]⟩] ++
      (Message.octets ⟨some 0x5a, by decide, [0x49]⟩ ++ [0x4e]) := by decide
  exact drain_law hwf (by decide) (Kernel.eager_readsOk _) hnotice hready rfl hp

/-! ### Any stream -/

/-- The type of the first message of a stream, all of which is in the buffer. -/
def typeOf (p : List Octet) : ℤ := pgrMbufMsgtype ((pgrMbufNew p.length).put p)

/-- The stream begins with a message that is there as a whole. -/
def StartsMessage (p : List Octet) : Prop := 0 ≤ typeOf p ∧ 5 ≤ frameSize p ∧ frameSize p ≤ p.length

/-- What goes wrong with a round. -/
inductive Misled (until' : ℤ) (m : Mbuf) (k : Kernel) : Prop
  /-- There is nothing that could be discarded, and nothing can be received. -/
  | stalls (found : 0 ≤ pgrMbufMsgtype m) (other : pgrMbufMsgtype m ≠ until') (nothing : size m = 0)
      (stuck : 5 ≤ m.available ∨ m.fill = m.len ∨ k.unread m.infd = [])
  /-- The message that is looked for is not there as a whole, or not enough of it has been received. -/
  | partly (found : 0 ≤ pgrMbufMsgtype m) (sought : pgrMbufMsgtype m = until')
      (part : size m < 5 ∨ (pending m k).length < size m)
  /-- There is a message, but not enough of it has been received. -/
  | unseen (none : pgrMbufMsgtype m < 0) (message : StartsMessage (pending m k))

/-- What a round does that goes on. -/
structure DrainedRound (until' : ℤ) (m : Mbuf) (k : Kernel) (m' : Mbuf) (k' : Kernel) : Prop where
  /-- A type has been found. -/
  found : 0 ≤ pgrMbufMsgtype m
  /-- It is not the one that is looked for. -/
  other : pgrMbufMsgtype m ≠ until'
  /-- The buffer is in order. -/
  wf : m'.Wf
  /-- No `read` fails. -/
  reads : k'.ReadsOk
  /-- The message has gone from the stream. -/
  pending : PgRouter.Wire.pending m' k' = (PgRouter.Wire.pending m k).drop (size m)
  /-- What can be received has been. -/
  received : 5 ≤ m'.available ∨ m'.fill = m'.len ∨ k'.unread m'.infd = []
  /-- Where there were not five octets, there are only more of them. -/
  more : m.available < 5 → ∃ d, m' = m.put d

/-- A round of the loop. -/
theorem drainStep_cases (until' : ℤ) {m : Mbuf} (h : m.Wf) {k : Kernel} (hr : k.ReadsOk) :
    (pgrMbufMsgtype m < 0 ∧ drainStep until' (m, k) = .error (-1, m, k)) ∨
      (0 ≤ pgrMbufMsgtype m ∧ pgrMbufMsgtype m = until' ∧
        ∃ m' k', drainStep until' (m, k) = .error (0, m', k') ∧ pending m' k' = (pending m k).drop (size m)) ∨
      ∃ m' k', drainStep until' (m, k) = .ok (m', k') ∧ DrainedRound until' m k m' k' := by
  obtain ⟨hwf, hreads, hp⟩ := pgrMbufDiscard_drop h hr
  rw [drainStep, drainRound]
  simp only
  by_cases hneg : pgrMbufMsgtype m < 0
  · exact .inl ⟨hneg, if_pos hneg⟩
  · by_cases hu : pgrMbufMsgtype m = until'
    · refine .inr (.inl ⟨not_lt.mp hneg, hu, _, _, ?_, hp⟩)
      rw [if_neg hneg, if_pos hu]
    · obtain ⟨he, -, hrc⟩ := pgrMbufRecv_spec hwf (pgrMbufDiscard m k).2.2 rfl
      refine .inr (.inr ⟨_, _, by rw [if_neg hneg, if_neg hu], not_lt.mp hneg, hu, he.wf, he.follows.readsOk hreads,
        he.pending.trans hp, ?_, fun hshort => ?_⟩)
      · exact hrc.imp (fun h => h.1) fun h => h.elim (fun h => h.2.2) fun h => absurd hreads h.2.2
      · obtain ⟨d, reads, -, heq⟩ := pgrMbufRecv_put m k
        rw [pgrMbufDiscard_short hshort]
        exact ⟨d, congrArg Prod.fst heq⟩

/-- Where a round stalls, so does the next. -/
theorem drainStep_stalls {until' : ℤ} {m : Mbuf} (h : m.Wf) {k : Kernel} (hr : k.ReadsOk)
    (hfound : 0 ≤ pgrMbufMsgtype m) (hother : pgrMbufMsgtype m ≠ until') (hsize : size m = 0)
    (hstuck : 5 ≤ m.available ∨ m.fill = m.len ∨ k.unread m.infd = []) :
    ∃ k', drainStep until' (m, k) = .ok (m, k') ∧ k'.unread = k.unread ∧ k'.ReadsOk := by
  obtain ⟨k', hrecv, hunread, hreads⟩ := pgrMbufRecv_stuck h hr hstuck
  have hdiscard := pgrMbufDiscard_whole (show size m ≤ m.available by omega) k
  rw [hsize, if_neg (lt_irrefl 0)] at hdiscard
  refine ⟨k', ?_, hunread, hreads⟩
  rw [drainStep, drainRound, hdiscard]
  simp only [if_neg (not_lt.mpr hfound), if_neg hother, hrecv]

/-- A loop that stalls does not return. -/
theorem not_returns_of_stalls {until' : ℤ} {m : Mbuf} (h : m.Wf) {k : Kernel} (hr : k.ReadsOk)
    (hfound : 0 ≤ pgrMbufMsgtype m) (hother : pgrMbufMsgtype m ≠ until') (hsize : size m = 0)
    (hstuck : 5 ≤ m.available ∨ m.fill = m.len ∨ k.unread m.infd = []) {s : Mbuf × Kernel} {out : Outcome}
    (hgets : Gets (drainStep until') (m, k) s) : drainStep until' s ≠ .error out := by
  refine not_error_of_invariant (P := fun s => s.1 = m ∧ s.2.unread = k.unread ∧ s.2.ReadsOk) ?_ ⟨rfl, rfl, hr⟩ hgets
  rintro ⟨m₁, k₁⟩ ⟨rfl, hunread, hreads⟩
  obtain ⟨k', hround, hunread', hreads'⟩ := drainStep_stalls h hreads hfound hother hsize (hunread ▸ hstuck)
  exact ⟨(m₁, k'), hround, rfl, hunread'.trans hunread, hreads'⟩

/-- What has to be received, and whether there is more than that. -/
def drainLeft (s : Mbuf × Kernel) : ℕ := 2 * (pending s.1 s.2).length + if s.1.available < 5 then 1 else 0

/-- More octets do not change a type that is found. -/
theorem msgtype_put {m : Mbuf} (h : m.Wf) (hfound : 0 ≤ pgrMbufMsgtype m) (d : List Octet) :
    pgrMbufMsgtype (m.put d) = pgrMbufMsgtype m := by
  have hstart := h.start_le
  refine msgtype_of_agree ?_ (fun i hi => blit_of_lt _ _ ?_) hfound
  · simp only [Mbuf.available, put_fill, put_start]
    omega
  · unfold Mbuf.available at hi
    simp only [put_start]
    omega

/-- **Each round** that does not mislead, nor lead to one that does, gets on. -/
theorem DrainedRound.left_lt {until' : ℤ} {m m' : Mbuf} {k k' : Kernel} (hround : DrainedRound until' m k m' k')
    (h : m.Wf) (hno : ¬ Misled until' m k) (hno' : ¬ Misled until' m' k') :
    drainLeft (m', k') < drainLeft (m, k) := by
  have hlen := congrArg List.length hround.pending
  rw [List.length_drop] at hlen
  have hle := available_le_pending m k
  simp only [drainLeft]
  by_cases hav : m.available < 5
  · -- if there were still not five octets, the next round would stall
    have hav' : ¬ m'.available < 5 := by
      intro hav'
      obtain ⟨d, rfl⟩ := hround.more hav
      have htype := msgtype_put h hround.found d
      exact hno' (.stalls (htype ▸ hround.found) (htype ▸ hround.other) (if_pos hav') hround.received)
    rw [if_pos hav, if_neg hav']
    omega
  · have hsize : size m ≠ 0 := fun h0 => hno (.stalls hround.found hround.other h0 (.inl (not_lt.mp hav)))
    rw [if_neg hav]
    split <;> omega

end PgRouter.Wire
