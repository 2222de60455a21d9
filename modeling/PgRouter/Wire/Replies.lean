import PgRouter.Wire.Starvation

/-!
# The replies of a backend

What a backend sends is a sequence of messages with an ASCII character for a type, each
shorter than 2^24 octets. It may end in the middle of one. A reply to a request is a part
of the sequence that ends with its only ReadyForQuery message.

`pgr_mbuf_relay` and the rounds of `pgr_mbuf_drain` move along such a stream message by
message, until it ends (`Legible.relay`, `Legible.drainRound`).
-/

namespace PgRouter.Wire

open Foundation

/-! ### Streams of messages -/

/-- A message such as a backend sends. -/
structure Message.Plain (msg : Message) : Prop extends msg.Ordinary where
  /-- Its type is an ASCII character. -/
  ascii : ∀ t, msg.type = some t → t < 0x80

/-- A ReadyForQuery message. -/
def Message.IsReady (msg : Message) : Prop := msg.type = some 0x5a

/-- A sequence of messages with the property `P`, the last of which may be cut off. -/
inductive Legible (P : Message → Prop) : List Octet → Prop
  /-- The stream ends. -/
  | nil : Legible P []
  /-- The stream ends in the middle of a message. -/
  | cut {p : List Octet} {msg : Message} (sat : P msg) (front : p <+: msg.octets)
      (short : p.length < msg.octets.length) : Legible P p
  /-- A message, and the rest of the stream. -/
  | message {msg : Message} {rest : List Octet} (sat : P msg) (legible : Legible P rest) :
      Legible P (msg.octets ++ rest)

theorem Legible.mono {P Q : Message → Prop} (h : ∀ msg, P msg → Q msg) {p : List Octet} (hp : Legible P p) :
    Legible Q p := by
  induction hp with
  | nil => exact .nil
  | cut sat front short => exact .cut (h _ sat) front short
  | message sat _ ih => exact .message (h _ sat) ih

/-- Whole messages, none of which is a ReadyForQuery. -/
def Unfinished (p : List Octet) : Prop := ∃ body : List Message, p = streamOf body ∧ ∀ msg ∈ body, ¬ msg.IsReady

/-- Whole messages, of which the last, and no other, is a ReadyForQuery. -/
def Complete (p : List Octet) : Prop :=
  ∃ body : List Message, ∃ ready : Message, p = streamOf body ++ ready.octets ∧ (∀ msg ∈ body, ¬ msg.IsReady) ∧
    ready.IsReady

theorem Unfinished.nil : Unfinished [] := ⟨[], rfl, nofun⟩

theorem Unfinished.append {p : List Octet} (h : Unfinished p) {msg : Message} (hmsg : ¬ msg.IsReady) :
    Unfinished (p ++ msg.octets) := by
  obtain ⟨body, rfl, hbody⟩ := h
  refine ⟨body ++ [msg], ?_, fun m hm => ?_⟩
  · rw [streamOf_append, streamOf_cons]
    simp [streamOf]
  · rcases List.mem_append.mp hm with hm | hm
    · exact hbody m hm
    · exact List.mem_singleton.mp hm ▸ hmsg

theorem Unfinished.complete {p : List Octet} (h : Unfinished p) {msg : Message} (hmsg : msg.IsReady) :
    Complete (p ++ msg.octets) := by
  obtain ⟨body, rfl, hbody⟩ := h
  exact ⟨body, msg, rfl, hbody, hmsg⟩

/-! ### The message at the front -/

/-- Five octets say how long the first message is. -/
theorem frameSize_append {p : List Octet} (h : 5 ≤ p.length) (q : List Octet) : frameSize (p ++ q) = frameSize p := by
  match p, h with
  | _ :: _ :: _ :: _ :: _ :: _, _ => rfl

variable {P : Message → Prop}

/-- The message `msg` is at the front of the pending stream, with its five first octets
available. -/
structure Front (P : Message → Prop) (m : Mbuf) (k : Kernel) (msg : Message) : Prop where
  /-- The message has the property. -/
  sat : P msg
  /-- `size` counts its octets. -/
  size : size m = msg.octets.length
  /-- `pgr_mbuf_msgtype` is its type. -/
  type : ∃ t, msg.type = some t ∧ m.buf m.start = t ∧ pgrMbufMsgtype m = t.toNat
  /-- It is whole, or cut off. -/
  whole : (∃ rest, pending m k = msg.octets ++ rest ∧ Legible P rest) ∨ (pending m k).length < msg.octets.length

theorem Legible.front (hP : ∀ msg, P msg → msg.Plain) {m : Mbuf} (h : m.Wf) {k : Kernel} (hav : 5 ≤ m.available)
    (hl : Legible P (pending m k)) : ∃ msg, Front P m k msg := by
  have h5 := hav.trans (available_le_pending m k)
  -- the first octets are those of a message, whether it is whole or not
  obtain ⟨msg, sat, hor, hframe, hhead⟩ : ∃ msg : Message, P msg ∧
      ((∃ rest, pending m k = msg.octets ++ rest ∧ Legible P rest) ∨ (pending m k).length < msg.octets.length) ∧
      frameSize (pending m k) = frameSize msg.octets ∧ (pending m k)[0]? = msg.octets[0]? := by
    generalize pending m k = p at hl h5
    cases hl with
    | nil => exact absurd h5 (by decide)
    | cut sat front short =>
      obtain ⟨q, hq⟩ := front
      exact ⟨_, sat, .inr short, by rw [← hq, frameSize_append h5],
        by rw [← hq, List.getElem?_append_left (by omega)]⟩
    | @message msg rest sat legible =>
      have hmsg := (hP msg sat).five_le
      exact ⟨msg, sat, .inl ⟨rest, rfl, legible⟩, frameSize_append hmsg _, List.getElem?_append_left (by omega)⟩
  have plain := hP msg sat
  obtain ⟨t, ht⟩ := Option.isSome_iff_exists.mp plain.typed
  have hbuf : m.buf m.start = t := by
    have hfirst := getElem?_pending h k (i := 0) (by omega)
    rw [hhead, Message.octets, ht] at hfirst
    exact (Option.some.inj hfirst).symm
  have ht0 : t ≠ 0 := fun h0 => msg.type_ne (by rw [ht, h0])
  refine ⟨msg, sat, ?_, ⟨t, ht, hbuf, ?_⟩, hor⟩
  · have hshort := plain.short
    have hmsg := plain.five_le
    rw [size_eq_frameSize h k hav, hframe]
    have hoct : frameSize (msg.octets ++ []) = msg.octets.length :=
      (frameSize_octets (by rwa [List.append_nil]) (by omega)).mpr hshort
    rwa [List.append_nil] at hoct
  · have hascii : t.toNat < 128 := plain.ascii t ht
    rw [pgrMbufMsgtype, if_neg (by omega), if_neg (by rw [hbuf]; exact ht0), hbuf]
    rw [Int8.toInt, UInt8.toBitVec_toInt8, BitVec.toInt_eq_toNat_of_lt (by rw [UInt8.toNat_toBitVec]; omega),
      UInt8.toNat_toBitVec]

/-- The type says whether it is a ReadyForQuery. -/
theorem Front.type_iff {m : Mbuf} {k : Kernel} {msg : Message} (h : Front P m k msg) :
    pgrMbufMsgtype m = chr 'Z' ↔ msg.IsReady := by
  obtain ⟨t, ht, -, htype⟩ := h.type
  rw [htype, Message.IsReady, ht, Option.some_inj, ← UInt8.toNat_inj]
  exact Int.natCast_inj

theorem Front.type_nonneg {m : Mbuf} {k : Kernel} {msg : Message} (h : Front P m k msg) : 0 ≤ pgrMbufMsgtype m := by
  obtain ⟨t, -, -, htype⟩ := h.type
  rw [htype]
  exact Int.natCast_nonneg _

/-- A stream that goes on goes on with a character. -/
theorem Legible.head (hP : ∀ msg, P msg → msg.Plain) {p : List Octet} (h : Legible P p) (hp : p ≠ []) :
    ∃ t : Octet, p.head? = some t ∧ t ≠ 0 ∧ t < 0x80 := by
  -- the first octet is that of a message, whether it is whole or not
  have hmsg : ∀ {msg : Message} {q : List Octet}, P msg → q ≠ [] → q <+: msg.octets →
      ∃ t : Octet, q.head? = some t ∧ t ≠ 0 ∧ t < 0x80 := by
    rintro msg q sat hq ⟨r, hr⟩
    obtain ⟨t, ht⟩ := Option.isSome_iff_exists.mp (hP msg sat).typed
    obtain ⟨a, q, rfl⟩ := List.exists_cons_of_ne_nil hq
    rw [Message.octets, ht] at hr
    obtain rfl : a = t := (List.cons.inj hr).1
    exact ⟨a, rfl, fun h0 => msg.type_ne (by rw [ht, h0]), (hP msg sat).ascii a ht⟩
  cases h with
  | nil => exact absurd rfl hp
  | cut sat front short => exact hmsg sat hp front
  | @message msg rest sat legible =>
    have h5 := (hP msg sat).five_le
    have hne : msg.octets ≠ [] := fun h0 => by
      rw [h0] at h5
      exact absurd h5 (by decide)
    rw [List.head?_append_of_ne_nil _ hne]
    exact hmsg sat hne List.prefix_rfl

/-! ### Moving along the stream -/

/-- `pgr_mbuf_relay` returns `0` when it has written a message whole. -/
theorem Legible.relay (hP : ∀ msg, P msg → msg.Plain) {m : Mbuf} (h : m.Wf) {k : Kernel}
    (hl : Legible P (pending m k)) {m' : Mbuf} {k' : Kernel} (hr : pgrMbufRelay m k = (0, m', k')) :
    ∃ msg, Front P m k msg ∧ Effect m k msg.octets msg.octets m' k' ∧ Legible P (pending m' k') := by
  have hav : 5 ≤ m.available := by
    by_contra hlt
    rw [pgrMbufRelay_short (by omega)] at hr
    cases hr
  obtain ⟨msg, hfront⟩ := hl.front hP h hav
  obtain ⟨u, w, he, -, -, -, -, hzero, -, -⟩ := pgrMbufRelay_spec h hav hr
  obtain ⟨hlen, rfl⟩ := hzero.mp rfl
  rw [hfront.size] at hlen
  rcases hfront.whole with ⟨rest, hp, hrest⟩ | hshort
  · have hw : w = msg.octets := by rw [he.used_eq_take, hlen, hp, List.take_left]
    subst hw
    have hp' : pending m' k' = rest := List.append_cancel_left (he.pending.trans hp)
    exact ⟨msg, hfront, he, hp' ▸ hrest⟩
  · have hle := he.used_prefix.length_le
    omega

/-- What `pgr_mbuf_recv` has done before a round of `pgr_mbuf_drain`: there is enough of the
next message to see its first five octets, or the stream ends here. -/
def Seen (m : Mbuf) (k : Kernel) : Prop := 5 ≤ m.available ∨ k.unread m.infd = []

theorem pgrMbufRecv_seen {m : Mbuf} (h : m.Wf) {k : Kernel} (hr : k.ReadsOk) (hroom : m.start + 5 ≤ m.len) :
    Seen (pgrMbufRecv m k).2.1 (pgrMbufRecv m k).2.2 := by
  obtain ⟨he, hk, ⟨hav, -⟩ | ⟨hlt, -, hfill | hend⟩ | ⟨-, -, hno⟩⟩ := pgrMbufRecv_spec h k rfl
  · exact .inl hav
  · have hs := hk.start
    have hl := he.len
    unfold Mbuf.available at hlt
    omega
  · exact .inr hend
  · exact absurd hr hno

/-- What a round of `pgr_mbuf_drain` does to the stream of a backend: `u` has gone from it. -/
structure Drained (P : Message → Prop) (m : Mbuf) (k : Kernel) (u : List Octet) (m' : Mbuf) (k' : Kernel) : Prop
    extends Effect m k u [] m' k', Kept m m' where
  /-- The rest is a sequence of messages. -/
  legible : Legible P (PgRouter.Wire.pending m' k')

/-- A round of `pgr_mbuf_drain` discards a message that is not a ReadyForQuery and receives
the next, or finds the end of the stream; the last round discards a ReadyForQuery, or finds
the end of the stream. If the stream ends within the first five octets of a message, these
stay in the buffer. -/
theorem Legible.drainRound (hP : ∀ msg, P msg → msg.Plain) {m : Mbuf} (h : m.Wf) {k : Kernel} (hr : k.ReadsOk)
    (hroom : m.start + 5 ≤ m.len) (hs : Seen m k) (hl : Legible P (pending m k)) :
    match drainRound (chr 'Z') m k with
    | .ok (m', k') => ∃ u, Drained P m k u m' k' ∧ Seen m' k' ∧
        ((∃ msg : Message, u = msg.octets ∧ ¬ msg.IsReady) ∨ u = [] ∨ pending m' k' = [])
    | .error (_, m', k') => ∃ u, Drained P m k u m' k' ∧
        ((∃ msg : Message, u = msg.octets ∧ msg.IsReady) ∨ pending m' k' = [] ∨ m'.window ≠ []) := by
  -- receiving the next message changes nothing in the stream
  have hrecv : ∀ {u : List Octet} {m₁ : Mbuf} {k₁ : Kernel}, Drained P m k u m₁ k₁ →
      Drained P m k u (pgrMbufRecv m₁ k₁).2.1 (pgrMbufRecv m₁ k₁).2.2 ∧
        Seen (pgrMbufRecv m₁ k₁).2.1 (pgrMbufRecv m₁ k₁).2.2 ∧
        pending (pgrMbufRecv m₁ k₁).2.1 (pgrMbufRecv m₁ k₁).2.2 = pending m₁ k₁ := by
    intro u m₁ k₁ hd
    obtain ⟨he, hk, -⟩ := pgrMbufRecv_spec hd.wf k₁ rfl
    have hall := hd.toEffect.trans he
    rw [List.append_nil, List.append_nil] at hall
    have hpend : pending (pgrMbufRecv m₁ k₁).2.1 (pgrMbufRecv m₁ k₁).2.2 = pending m₁ k₁ := he.pending
    refine ⟨⟨hall, hd.toKept.trans hk, hpend ▸ hd.legible⟩, ?_, hpend⟩
    exact pgrMbufRecv_seen hd.wf (hd.follows.readsOk hr) (by rw [hd.start, hd.len]; exact hroom)
  unfold PgRouter.Wire.drainRound
  simp only
  by_cases hav : 5 ≤ m.available
  · obtain ⟨msg, hfront⟩ := hl.front hP h hav
    obtain ⟨u, he, hk, hdiscard⟩ := pgrMbufDiscard_spec h hav (k := k) rfl
    obtain ⟨-, hu⟩ := hdiscard hr
    have hp := he.pending_eq
    rw [hfront.size] at hu
    rw [if_neg (not_lt.mpr hfront.type_nonneg)]
    -- the message has gone, or what there was of it
    obtain ⟨hd, hmsg⟩ : Drained P m k u (pgrMbufDiscard m k).2.1 (pgrMbufDiscard m k).2.2 ∧
        (u = msg.octets ∨ pending (pgrMbufDiscard m k).2.1 (pgrMbufDiscard m k).2.2 = []) := by
      rcases hfront.whole with ⟨rest, hpend, hrest⟩ | hshort
      · have hmsg : u = msg.octets := by rw [hu, hpend, List.take_left]
        rw [hmsg, hpend, List.drop_left] at hp
        exact ⟨⟨he, hk, hp ▸ hrest⟩, .inl hmsg⟩
      · have hall : u = pending m k := by rw [hu, List.take_of_length_le hshort.le]
        rw [hall, List.drop_length] at hp
        exact ⟨⟨he, hk, hp ▸ .nil⟩, .inr hp⟩
    by_cases hz : pgrMbufMsgtype m = chr 'Z'
    · rw [if_pos hz]
      exact ⟨u, hd, hmsg.imp (fun hmsg => ⟨msg, hmsg, hfront.type_iff.mp hz⟩) .inl⟩
    · obtain ⟨hd', hs', hpend⟩ := hrecv hd
      rw [if_neg hz]
      exact ⟨u, hd', hs', hmsg.imp (fun hmsg => ⟨msg, hmsg, fun hready => hz (hfront.type_iff.mpr hready)⟩)
        fun hnil => .inr (hpend.trans hnil)⟩
  · -- the stream ends within the first five octets of a message, or where one would begin
    have hd : Drained P m k [] m k := ⟨.refl h k, .refl m, hl⟩
    have hend : k.unread m.infd = [] := hs.resolve_left hav
    have hrest : pending m k = [] ∨ m.window ≠ [] := by
      by_cases hw : m.window = []
      · exact .inl (by rw [pending, hw, hend, List.append_nil])
      · exact .inr hw
    rw [pgrMbufDiscard_short (by omega)]
    split_ifs
    · exact ⟨[], hd, .inr hrest⟩
    · exact ⟨[], hd, .inr hrest⟩
    · obtain ⟨hd', hs', -⟩ := hrecv hd
      exact ⟨[], hd', hs', .inr (.inl rfl)⟩

end PgRouter.Wire
