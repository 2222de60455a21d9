import PgRouter.Wire.ErrorResponse
import PgRouter.Wire.ReplayLog

/-!
# Operations as functions of the stream

How the pending stream is divided between the buffer and the descriptor is the choice of the
kernel. Where no call fails, `pgr_mbuf_send` and `pgr_mbuf_relay` do not depend on it: they
take the first message off the stream (`current`, `beyond`). What only looks at the buffer,
`pgr_mbuf_msgtype`, `pgr_mbuf_data` and `pgr_mbuf_iserror`, does not depend on it as far as
enough of the stream is in the buffer: five octets for the type (`Seen`), the text that is
compared (`Shown`), and an ErrorResponse as a whole.
-/

namespace PgRouter.Wire

open Foundation

/-- The first message of a stream, or what there is of it. -/
def current (p : List Octet) : List Octet := p.take (frameSize p)

/-- What follows the first message of a stream. -/
def beyond (p : List Octet) : List Octet := p.drop (frameSize p)

/-- The first message is of type `c`. -/
def IsType (c : Char) (p : List Octet) : Prop := p.head? = some (UInt8.ofNat c.toNat)

instance (c : Char) (p : List Octet) : Decidable (IsType c p) := inferInstanceAs (Decidable (_ = _))

/-- The first message is whole. -/
def IsWhole (p : List Octet) : Prop := 5 ≤ p.length ∧ frameSize p ≤ p.length

instance (p : List Octet) : Decidable (IsWhole p) := inferInstanceAs (Decidable (_ ∧ _))

theorem current_append_beyond (p : List Octet) : current p ++ beyond p = p := List.take_append_drop _ p

/-- Fewer than five octets are no message. -/
theorem frameSize_of_lt {p : List Octet} (h : p.length < 5) : frameSize p = 0 := by
  match p, h with
  | [], _ | [_], _ | [_, _], _ | [_, _, _], _ | [_, _, _, _], _ => rfl

theorem current_of_lt {p : List Octet} (h : p.length < 5) : current p = [] := by
  rw [current, frameSize_of_lt h, List.take_zero]

theorem beyond_of_lt {p : List Octet} (h : p.length < 5) : beyond p = p := by
  rw [beyond, frameSize_of_lt h, List.drop_zero]

/-! ### Looking at the buffer -/

/-- Where the first five octets are seen, the buffer has five octets or the whole stream. -/
theorem Seen.length_iff {m : Mbuf} {k : Kernel} (h : Seen m k) : (pending m k).length < 5 ↔ m.available < 5 := by
  have hle := available_le_pending m k
  rcases h with hav | hend
  · omega
  · rw [length_pending, hend, List.length_nil, Nat.add_zero]

/-- `pgr_mbuf_msgtype` is decided by the first octet of the stream, for the types that are
letters. -/
theorem Seen.msgtype_iff {m : Mbuf} {k : Kernel} (h : Seen m k) (hm : m.Wf) {c : Char} (hlo : 3 < c.toNat)
    (hhi : c.toNat < 128) : pgrMbufMsgtype m = chr c ↔ IsType c (pending m k) := by
  by_cases hav : m.available = 0
  · have hnil : pending m k = [] := by
      have hend := h.resolve_left (by omega)
      exact List.length_eq_zero_iff.mp (by rw [length_pending, hav, hend]; rfl)
    rw [IsType, hnil, pgrMbufMsgtype, if_pos hav]
    simp only [List.head?_nil, reduceCtorEq, chr]
  · have hhead : (pending m k).head? = some (m.buf m.start) := by
      rw [List.head?_eq_getElem?]
      exact getElem?_pending hm k (by omega)
    rw [IsType, hhead, Option.some_inj]
    by_cases h0 : m.buf m.start = 0
    · rw [h0]
      constructor
      · intro ht
        exact absurd h0 (ne_zero_of_msgtype ht (by rw [chr]; omega))
      · intro ht
        have := congrArg UInt8.toNat ht
        rw [UInt8.toNat_ofNat', UInt8.toNat_zero] at this
        omega
    · rw [pgrMbufMsgtype, if_neg hav, if_neg h0, chr, ← UInt8.toNat_inj, UInt8.toNat_ofNat',
        Nat.mod_eq_of_lt (by omega)]
      have hb := (m.buf m.start).toNat_lt
      rw [Int8.toInt, UInt8.toBitVec_toInt8, BitVec.toInt_eq_toNat_cond, UInt8.toNat_toBitVec]
      split <;> omega

/-- `pgr_mbuf_msgtype` is negative only at the end of a stream of messages. -/
theorem Seen.msgtype_neg_iff {P : Message → Prop} (hP : ∀ msg, P msg → msg.Plain) {m : Mbuf} {k : Kernel} (h : Seen m k)
    (hm : m.Wf) (hl : Legible P (pending m k)) : pgrMbufMsgtype m < 0 ↔ pending m k = [] := by
  by_cases hav : m.available = 0
  · have hend := h.resolve_left (by omega)
    rw [pgrMbufMsgtype, if_pos hav]
    exact iff_of_true (by decide) (List.length_eq_zero_iff.mp (by rw [length_pending, hav, hend]; rfl))
  · have hget := getElem?_pending hm k (i := 0) (by omega)
    have hne : pending m k ≠ [] := fun h0 => by
      rw [h0] at hget
      cases hget
    obtain ⟨t, ht, h0, hascii⟩ := hl.head hP hne
    have hbuf : m.buf m.start = t := by
      rw [← List.head?_eq_getElem?, ht] at hget
      exact (Option.some.inj hget).symm
    have hlt : t.toNat < 128 := hascii
    refine iff_of_false ?_ hne
    rw [pgrMbufMsgtype, if_neg hav, hbuf, if_neg h0, Int8.toInt, UInt8.toBitVec_toInt8,
      BitVec.toInt_eq_toNat_of_lt (by rw [UInt8.toNat_toBitVec]; omega)]
    exact not_lt.mpr (Int.natCast_nonneg _)

/-- A message such as a backend sends, and well formed if it is an ErrorResponse. -/
structure Message.WellFormed (msg : Message) : Prop extends msg.Plain where
  /-- The payload of an ErrorResponse is a sequence of fields. -/
  error : msg.type = some 0x45 → ∃ fields, msg.payload = errorPayload fields

/-- A stream of well-formed messages may begin with any such message. -/
theorem legible_message (t : Octet) (payload : List Octet) (ht : some t ≠ some 0) (hascii : t < 0x80)
    (hshort : payload.length + 4 < 2 ^ 24) (herror : t = 0x45 → ∃ fields, payload = errorPayload fields)
    {w : List Octet} (hw : w = (⟨some t, ht, payload⟩ : Message).octets) {rest : List Octet}
    (h : Legible Message.WellFormed rest) :
    Legible Message.WellFormed (w ++ rest) := by
  rw [hw]
  refine .message ⟨⟨⟨rfl, hshort⟩, fun t' ht' => ?_⟩, fun ht' => herror (Option.some.inj ht')⟩ h
  cases ht'
  exact hascii

/-- The first message is an ErrorResponse whose code begins with `code`. -/
def HasCode (code p : List Octet) : Prop := IsType 'E' p ∧ ∃ v ∈ readSqlstate (p.drop 5), code <+: v

instance (code p : List Octet) : Decidable (HasCode code p) := inferInstanceAs (Decidable (_ ∧ _))

/-- The octets of a typed message behind the first five are its payload. -/
theorem Message.drop_octets {msg : Message} {t : Octet} (ht : msg.type = some t) (rest : List Octet) :
    (msg.octets ++ rest).drop 5 = msg.payload ++ rest := by
  rw [Message.octets, ht]
  rfl

/-- `pgr_mbuf_iserror` is decided by the stream if an ErrorResponse is whole in the buffer. -/
theorem Seen.iserror_eq_zero_iff {m : Mbuf} {k : Kernel} (h : Seen m k) (hm : m.Wf)
    (hl : Legible Message.WellFormed (pending m k))
    (hwhole : pgrMbufMsgtype m = chr 'E' → 5 ≤ m.available → size m ≤ m.available) {code : List Octet}
    (hlen : code.length = 5) (hcode : ∀ c ∈ code, c ≠ 0) :
    pgrMbufIserror m (some code) = 0 ↔ HasCode code (pending m k) := by
  have htype := h.msgtype_iff hm (c := 'E') (by decide) (by decide)
  unfold pgrMbufIserror
  by_cases he : pgrMbufMsgtype m = chr 'E'
  · have hlength := h.length_iff
    rw [if_neg (not_not.mpr he), HasCode, and_iff_right (htype.mp he)]
    by_cases hav : 5 ≤ m.available
    · obtain ⟨msg, hfront⟩ := hl.front (fun _ h => h.toPlain) hm hav
      obtain ⟨t, ht, hbuf, -⟩ := hfront.type
      have hsize := hwhole he hav
      rw [hfront.size] at hsize
      obtain ⟨rest, hp, -⟩ := hfront.whole.resolve_right (by have := available_le_pending m k; omega)
      -- the message is the ErrorResponse
      have ht' : t = 0x45 := by
        have hhead := htype.mp he
        rw [IsType, List.head?_eq_getElem?, getElem?_pending hm k (by omega), Option.some_inj, Nat.add_zero,
          hbuf] at hhead
        exact hhead
      obtain ⟨fields, hpayload⟩ := hfront.sat.error (by rw [ht, ht'])
      have hdrop : (pending m k).drop 5 = errorPayload fields ++ rest := by
        rw [hp, Message.drop_octets ht, hpayload]
      have hmsg : msg.octets.length = 5 + (errorPayload fields).length := by
        rw [msg.length_octets, ht, Message.lengthField, hpayload, Option.toList_some, List.length_singleton]
        omega
      have hfill : m.available ≤ m.fill - m.start := le_rfl
      simp only
      rw [hdrop, readSqlstate_payload]
      refine scanFields_eq_zero_iff (fun i hi => ?_) (by omega) hlen hcode
      have hget := getElem?_pending hm k (i := 5 + i) (by omega)
      rw [← List.getElem?_drop, hdrop, List.getElem?_append_left hi, List.getElem?_eq_getElem hi] at hget
      rw [Nat.add_assoc]
      exact (Option.some.inj hget).symm
    · have hnone : readSqlstate ((pending m k).drop 5) = none := by
        rw [List.drop_eq_nil_of_le (by omega), readSqlstate]
      have hfill : m.available = m.fill - m.start := rfl
      simp only
      rw [hnone, scanFields, if_neg (by omega)]
      simp
  · rw [if_pos he, HasCode]
    simp [mt htype.mpr he]

/-! ### Moving along the stream -/

/-- There is room in the buffer for the first five octets of the next message. -/
def Room (m : Mbuf) (k : Kernel) : Prop := 5 ≤ m.available ∨ m.start + 5 ≤ m.len ∨ k.unread m.infd = []

instance (m : Mbuf) (k : Kernel) : Decidable (Room m k) := inferInstanceAs (Decidable (_ ∨ _))

/-- Where there is room, `pgr_mbuf_recv` sees the first five octets. -/
theorem Ready.recv_seen {m : Mbuf} {k : Kernel} (h : Ready m k) (hroom : Room m k) :
    0 ≤ (pgrMbufRecv m k).1 ∧ Seen (pgrMbufRecv m k).2.1 (pgrMbufRecv m k).2.2 := by
  obtain ⟨he, hk, ⟨hav, hrc⟩ | ⟨hlt, hrc, hfill | hend⟩ | ⟨-, -, hno⟩⟩ := pgrMbufRecv_spec h.wf k rfl
  · exact ⟨hrc ▸ Int.natCast_nonneg _, .inl hav⟩
  · refine ⟨hrc.ge, .inr ?_⟩
    rcases hroom with hav | hlen | hend
    · -- what was available is still available
      rw [pgrMbufRecv, if_neg (by omega)] at hlt
      exact absurd hlt (by simpa using hav)
    · have hs := hk.start
      have hl := he.len
      unfold Mbuf.available at hlt
      omega
    · have hsuf := he.follows.unread m.infd
      rw [hend, List.suffix_nil] at hsuf
      rw [he.infd, hsuf]
  · exact ⟨hrc.ge, .inr hend⟩
  · exact absurd h.reads hno

/-- What is left when the first message has gone. -/
theorem Effect.beyond {m m' : Mbuf} {k k' : Kernel} {w : List Octet}
    (h : Effect m k (current (PgRouter.Wire.pending m k)) w m' k') :
    PgRouter.Wire.pending m' k' = PgRouter.Wire.beyond (PgRouter.Wire.pending m k) :=
  List.append_cancel_left (h.pending.trans (current_append_beyond _).symm)

/-- `pgr_mbuf_send` sends the first message of the stream, or what there is of it. -/
theorem Ready.send {m : Mbuf} {k : Kernel} (h : Ready m k) (hs : Seen m k) :
    Sent m k (current (pending m k)) (pgrMbufSend m k).2.1 (pgrMbufSend m k).2.2 ∧
      ((pgrMbufSend m k).1 = 0 ↔ 5 ≤ (pending m k).length) := by
  have hlen := hs.length_iff
  by_cases hav : 5 ≤ m.available
  · rcases hr : pgrMbufSend m k with ⟨rc, m', k'⟩
    obtain ⟨w, hsent, -, hrc⟩ := pgrMbufSend_spec h.wf h.cached hav h.writes hr
    obtain ⟨h0, hw⟩ := hrc.resolve_right fun hno => hno.2 ⟨h.reads, h.disk⟩
    rw [size_eq_frameSize h.wf k hav] at hw
    obtain rfl : w = current (pending m k) := hw
    exact ⟨hsent, iff_of_true h0 (by omega)⟩
  · rw [pgrMbufSend_short (by omega), current_of_lt (by omega)]
    exact ⟨.refl h.wf h.cached k, iff_of_false one_ne_zero (by omega)⟩

/-- `pgr_mbuf_relay` relays the first message of the stream, or what there is of it. -/
theorem Ready.relay_current {m : Mbuf} {k : Kernel} (h : Ready m k) (hs : Seen m k) :
    Effect m k (current (pending m k)) (current (pending m k)) (pgrMbufRelay m k).2.1 (pgrMbufRelay m k).2.2 ∧
      ((pgrMbufRelay m k).1 = 0 ↔ IsWhole (pending m k)) := by
  have hlen := hs.length_iff
  by_cases hav : 5 ≤ m.available
  · rcases hr : pgrMbufRelay m k with ⟨rc, m', k'⟩
    obtain ⟨u, w, he, -, -, -, -, hrc, hu, hw⟩ := pgrMbufRelay_spec h.wf hav hr
    obtain rfl := hw h.writes
    have hcur := hu h.reads
    rw [size_eq_frameSize h.wf k hav] at hrc hcur
    obtain rfl : w = current (pending m k) := hcur
    refine ⟨he, hrc.trans ?_⟩
    rw [IsWhole, eq_self_iff_true, and_true, current, List.length_take]
    omega
  · rw [pgrMbufRelay_short (by omega), current_of_lt (by omega)]
    refine ⟨.refl h.wf k, iff_of_false one_ne_zero fun hwhole => ?_⟩
    have := hwhole.1
    omega

/-- `pgr_mbuf_discard` discards it. -/
theorem Ready.discard {m : Mbuf} {k : Kernel} (h : Ready m k) (hs : Seen m k) :
    Effect m k (current (pending m k)) [] (pgrMbufDiscard m k).2.1 (pgrMbufDiscard m k).2.2 := by
  have hlen := hs.length_iff
  by_cases hav : 5 ≤ m.available
  · rcases hr : pgrMbufDiscard m k with ⟨rc, m', k'⟩
    obtain ⟨u, he, -, hu⟩ := pgrMbufDiscard_spec h.wf hav hr
    have hcur := (hu h.reads).2
    rw [size_eq_frameSize h.wf k hav] at hcur
    obtain rfl : u = current (pending m k) := hcur
    exact he
  · rw [pgrMbufDiscard_short (by omega), current_of_lt (by omega)]
    exact .refl h.wf k

end PgRouter.Wire
