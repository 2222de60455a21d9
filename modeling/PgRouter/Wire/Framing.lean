import PgRouter.Wire.Pending

/-!
# Framing

A message of the PostgreSQL protocol is a type octet, the length of the rest as four
octets, most significant first, and a payload; the messages that open a connection have
no type octet. The functions of `msg.c` take a message off the pending stream by looking
at its first five octets (`size`), where a message whose first octet is `0` is an untyped
one.

The macro `u32` decodes the length. It is meant to put together all four octets,

    (uint16_t)((*(v)&0xff)<<24)|((*((v)+1)&0xff)<<16)|((*((v)+2)&0xff)<<8)|(*((v)+3)&0xff)

but the cast applies to the first octet only, after it has been shifted by 24: what is
decoded is the length modulo 2^24 (`u32_eq`). So messages are framed as the protocol says
just when they are shorter than 2^24 (`framed_iff`).
-/

namespace PgRouter.Wire

open Foundation

/-! ### Decoding a length -/

/-- Three octets, most significant first. -/
def be24 (a b c : Octet) : ℕ := a.toNat * 2 ^ 16 + b.toNat * 2 ^ 8 + c.toNat

theorem be24_lt (a b c : Octet) : be24 a b c < 2 ^ 24 := by
  have := a.toNat_lt
  have := b.toNat_lt
  have := c.toNat_lt
  unfold be24
  omega

/-- The macro `u16` puts two octets together. -/
theorem u16_eq (b : ℕ → Octet) (i : ℕ) : u16 b i = (b i).toNat * 2 ^ 8 + (b (i + 1)).toNat := by
  have h0 := (b i).toNat_lt
  have h1 := (b (i + 1)).toNat_lt
  have hshift : (b i).toNat <<< 8 = (b i).toNat * 2 ^ 8 := Nat.shiftLeft_eq _ _
  rw [u16, Nat.mod_eq_of_lt (by omega), ← Nat.shiftLeft_add_eq_or_of_lt (by omega), hshift]

/-- The macro `u32` drops the first octet. -/
theorem u32_eq (b : ℕ → Octet) (i : ℕ) : u32 b i = be24 (b (i + 1)) (b (i + 2)) (b (i + 3)) := by
  have h1 := (b (i + 1)).toNat_lt
  have h2 := (b (i + 2)).toNat_lt
  have h3 := (b (i + 3)).toNat_lt
  have h0 : ((b i).toNat <<< 24) % 2 ^ 16 = 0 := by
    rw [Nat.shiftLeft_eq, show (2 : ℕ) ^ 24 = 2 ^ 16 * 2 ^ 8 by rfl, Nat.mul_left_comm, Nat.mul_mod_right]
  have h12 : (b (i + 1)).toNat <<< 16 ||| (b (i + 2)).toNat <<< 8 =
      ((b (i + 1)).toNat * 2 ^ 8 + (b (i + 2)).toNat) <<< 8 := by
    rw [← Nat.shiftLeft_add_eq_or_of_lt (by rw [Nat.shiftLeft_eq]; omega)]
    simp only [Nat.shiftLeft_eq]
    omega
  rw [u32, h0, Nat.zero_or, h12, ← Nat.shiftLeft_add_eq_or_of_lt (by omega), Nat.shiftLeft_eq, be24]
  omega

/-- The size of the first message of a stream, by its first five octets. -/
def frameSize : List Octet → ℕ
  | a :: b :: c :: d :: e :: _ => if a = 0 then be24 b c d else be24 c d e + 1
  | _ => 0

/-- The octets at `buf + start` are those at the front of the pending stream. -/
theorem getElem?_pending {m : Mbuf} (h : m.Wf) (k : Kernel) {i : ℕ} (hi : i < m.available) :
    (pending m k)[i]? = some (m.buf (m.start + i)) := by
  have hi' : i < m.fill - m.start := hi
  have := h.start_le
  rw [pending, List.getElem?_append_left (by rw [length_window]; exact hi), Mbuf.window,
    getElem?_slice _ (by omega)]

/-- `size` is decided by the pending stream. -/
theorem size_eq_frameSize {m : Mbuf} (h : m.Wf) (k : Kernel) (hav : 5 ≤ m.available) :
    size m = frameSize (pending m k) := by
  have hget := fun i (hi : i < 5) => getElem?_pending h k (i := i) (by omega)
  have h0 := hget 0 (by omega)
  have h1 := hget 1 (by omega)
  have h2 := hget 2 (by omega)
  have h3 := hget 3 (by omega)
  have h4 := hget 4 (by omega)
  rw [size, if_neg (by omega), u32_eq, u32_eq]
  rcases hp : pending m k with _ | ⟨a, _ | ⟨b, _ | ⟨c, _ | ⟨d, _ | ⟨e, l⟩⟩⟩⟩⟩ <;> rw [hp] at h0 h1 h2 h3 h4 <;>
    simp_all [frameSize, Nat.add_assoc]

/-- A message with a type that is a character begins with an octet other than `0`. -/
theorem ne_zero_of_msgtype {m : Mbuf} {c : Char} (h : pgrMbufMsgtype m = chr c) (hc : 3 < chr c) :
    m.buf m.start ≠ 0 := by
  intro h0
  have hle : pgrMbufMsgtype m ≤ 3 := by
    unfold pgrMbufMsgtype
    rw [if_pos h0]
    simp only
    split_ifs <;> decide
  rw [h] at hle
  omega

/-! ### Messages -/

/-- A natural number below 2^32 as four octets, most significant first. -/
def be32 (n : ℕ) : List Octet :=
  [UInt8.ofNat (n / 2 ^ 24), UInt8.ofNat (n / 2 ^ 16), UInt8.ofNat (n / 2 ^ 8), UInt8.ofNat n]

/-- A message of the protocol. -/
structure Message where
  /-- The type octet; `none` in the messages that open a connection. -/
  type : Option Octet
  /-- A type octet is not `0`. -/
  type_ne : type ≠ some 0
  /-- What follows the length. -/
  payload : List Octet

/-- The length field, which counts itself. -/
def Message.lengthField (msg : Message) : ℕ := msg.payload.length + 4

/-- The message as it is transmitted. -/
def Message.octets (msg : Message) : List Octet :=
  msg.type.toList ++ (be32 msg.lengthField ++ msg.payload)

theorem be24_ofNat (n : ℕ) :
    be24 (UInt8.ofNat (n / 2 ^ 16)) (UInt8.ofNat (n / 2 ^ 8)) (UInt8.ofNat n) = n % 2 ^ 24 := by
  simp only [be24, UInt8.toNat_ofNat']
  omega

theorem Message.length_octets (msg : Message) :
    msg.octets.length = msg.type.toList.length + msg.lengthField := by
  simp [Message.octets, be32, Message.lengthField]

/-- The size of a typed message is its length modulo 2^24, and one for the type octet. -/
theorem frameSize_typed {msg : Message} {t : Octet} (ht : msg.type = some t) (rest : List Octet) :
    frameSize (msg.octets ++ rest) = msg.lengthField % 2 ^ 24 + 1 := by
  have ht0 : t ≠ 0 := fun h => msg.type_ne (by rw [ht, h])
  simp only [Message.octets, ht, Option.toList_some, be32, List.cons_append, List.nil_append, frameSize,
    if_neg ht0, be24_ofNat]

/-- The size of an untyped message is its length, if that is below 2^24. A longer one
begins with an octet other than `0`, and is taken for a typed message. -/
theorem frameSize_untyped {msg : Message} (ht : msg.type = none) {rest : List Octet}
    (h5 : 5 ≤ (msg.octets ++ rest).length) (h32 : msg.lengthField < 2 ^ 32) :
    frameSize (msg.octets ++ rest) = msg.lengthField ↔ msg.lengthField < 2 ^ 24 := by
  have hlen := msg.length_octets
  obtain ⟨p, l, hpl⟩ : ∃ p l, msg.payload ++ rest = p :: l := by
    refine List.exists_cons_of_ne_nil fun h => ?_
    have hnil := congrArg List.length h
    rw [List.length_append, List.length_nil] at hnil
    rw [List.length_append, hlen, ht, Message.lengthField] at h5
    simp only [Option.toList_none, List.length_nil] at h5
    omega
  have hoct : msg.octets ++ rest = be32 msg.lengthField ++ (p :: l) := by
    simp [Message.octets, ht, hpl]
  rw [hoct]
  generalize msg.lengthField = n at h32
  have hhead : UInt8.ofNat (n / 2 ^ 24) = 0 ↔ n < 2 ^ 24 := by
    rw [← UInt8.toNat_inj, UInt8.toNat_ofNat']
    simp only [UInt8.toNat_zero]
    omega
  by_cases hlt : n < 2 ^ 24
  · simp only [be32, List.cons_append, List.nil_append, frameSize, if_pos (hhead.mpr hlt), be24_ofNat,
      Nat.mod_eq_of_lt hlt, hlt]
  · have hp := p.toNat_lt
    have hne : ¬ UInt8.ofNat (n / 2 ^ 24) = 0 := fun h => hlt (hhead.mp h)
    simp only [be32, frameSize, List.cons_append, List.nil_append, if_neg hne, hlt, iff_false]
    simp only [be24, UInt8.toNat_ofNat']
    intro heq
    -- what is decoded is at most 2^24, and 2^24 is decoded as at most 256
    have hn : n = 2 ^ 24 := by omega
    subst hn
    omega

/-- `size` is right just for the messages of length below 2^24. -/
theorem frameSize_octets {msg : Message} {rest : List Octet} (h5 : 5 ≤ (msg.octets ++ rest).length)
    (h32 : msg.lengthField < 2 ^ 32) :
    frameSize (msg.octets ++ rest) = msg.octets.length ↔ msg.lengthField < 2 ^ 24 := by
  rw [msg.length_octets]
  cases ht : msg.type with
  | none => simpa using frameSize_untyped ht h5 h32
  | some t =>
    rw [frameSize_typed ht]
    simp only [Option.toList_some, List.length_singleton]
    omega

/-- The length that `pgr_mbuf_msglength` returns is right for a message of length below
2^24. -/
theorem pgrMbufMsglength_octets {m : Mbuf} (h : m.Wf) {k : Kernel} (hav : 5 ≤ m.available) {msg : Message}
    (hlt : msg.lengthField < 2 ^ 24) {rest : List Octet} (hp : pending m k = msg.octets ++ rest) :
    pgrMbufMsglength m = msg.lengthField - 4 := by
  have h5 : 5 ≤ (msg.octets ++ rest).length := by
    rw [← hp]
    exact hav.trans (available_le_pending m k)
  have hsize := (frameSize_octets h5 (by omega)).mpr hlt
  rw [← hp, ← size_eq_frameSize h k hav, size, if_neg (by omega), msg.length_octets] at hsize
  have hfirst := getElem?_pending h k (i := 0) (by omega)
  rw [hp, Nat.add_zero] at hfirst
  have hge : 4 ≤ msg.lengthField := by unfold Message.lengthField; omega
  rw [pgrMbufMsglength, if_neg (by omega)]
  cases ht : msg.type with
  | none =>
    have hzero : m.buf m.start = 0 := by
      rw [Message.octets, ht, be32, Nat.div_eq_of_lt hlt] at hfirst
      exact (Option.some.inj hfirst).symm
    rw [ht, if_pos hzero] at hsize
    rw [if_pos hzero, hsize, Option.toList_none, List.length_nil]
    omega
  | some t =>
    have ht0 : ¬ m.buf m.start = 0 := by
      have hbuf : m.buf m.start = t := by simpa [Message.octets, ht] using hfirst.symm
      rw [hbuf]
      exact fun h => msg.type_ne (by rw [ht, h])
    rw [ht, if_neg ht0, Option.toList_some, List.length_singleton] at hsize
    rw [if_neg ht0, show u32 m.buf (m.start + 1) = msg.lengthField by omega]
    omega

/-- What framing is for: at the message `msg` of the pending stream, `size` and
`pgr_mbuf_msglength` are what the protocol says, and the functions that take the current
message off the stream take off exactly `msg`. -/
structure Framed (m : Mbuf) (k : Kernel) (msg : Message) : Prop where
  /-- `size` counts the octets of the message. -/
  size : size m = msg.octets.length
  /-- `pgr_mbuf_msglength` counts the octets of the payload. -/
  msglength : pgrMbufMsglength m = msg.lengthField - 4
  /-- `pgr_mbuf_relay` moves past the message. -/
  relay : pending (pgrMbufRelay m k).2.1 (pgrMbufRelay m k).2.2 = (pending m k).drop msg.octets.length
  /-- `pgr_mbuf_send` moves past the message. -/
  send : pending (pgrMbufSend m k).2.1 (pgrMbufSend m k).2.2 = (pending m k).drop msg.octets.length
  /-- `pgr_mbuf_discard` moves past the message. -/
  discard : pending (pgrMbufDiscard m k).2.1 (pgrMbufDiscard m k).2.2 =
    (pending m k).drop msg.octets.length

/-- **Messages are framed as the protocol says just when their length is below 2^24.** -/
theorem framed_iff {m : Mbuf} (h : m.Wf) (hc : m.Cached) (hav : 5 ≤ m.available) {k : Kernel}
    (hw : k.WritesAll) (hr : k.ReadsOk) (hd : k.DiskOk) {msg : Message} (h31 : msg.lengthField < 2 ^ 31)
    {rest : List Octet} (hp : pending m k = msg.octets ++ rest) :
    Framed m k msg ↔ msg.lengthField < 2 ^ 24 := by
  have h5 : 5 ≤ (msg.octets ++ rest).length := by
    rw [← hp]
    exact hav.trans (available_le_pending m k)
  have hsize : size m = msg.octets.length ↔ msg.lengthField < 2 ^ 24 := by
    rw [size_eq_frameSize h k hav, hp]
    exact frameSize_octets h5 (by omega)
  refine ⟨fun hf => hsize.mp hf.size, fun hlt => ?_⟩
  have hsz := hsize.mpr hlt
  have hmove : ∀ {u w : List Octet} {m' : Mbuf} {k' : Kernel}, Effect m k u w m' k' →
      u = (pending m k).take (size m) → pending m' k' = (pending m k).drop msg.octets.length := by
    intro u w m' k' he hu
    rw [he.pending_eq, hu, hsz, hp, List.take_left]
  obtain ⟨u, w, he, -, -, -, -, -, hrelay, -⟩ := pgrMbufRelay_spec h hav (k := k) rfl
  obtain ⟨w', hs, -, hsend⟩ := pgrMbufSend_spec h hc hav hw rfl
  obtain ⟨u', he', -, hdiscard⟩ := pgrMbufDiscard_spec h hav (k := k) rfl
  exact ⟨hsz, pgrMbufMsglength_octets h hav hlt hp, hmove he (hrelay hr),
    hmove hs.toEffect (hsend.resolve_right fun hn => hn.2 ⟨hr, hd⟩).2, hmove he' (hdiscard hr).2⟩

/-- The Sync message is framed. -/
theorem framed_sync :
    Framed ((pgrMbufNew 16).put [0x53, 0, 0, 0, 4]) (.eager fun _ => []) ⟨some 0x53, by decide, []⟩ :=
  have hp : pending ((pgrMbufNew 16).put [0x53, 0, 0, 0, 4]) (.eager fun _ => []) =
      (⟨some 0x53, by decide, []⟩ : Message).octets ++ [] := by decide
  (framed_iff ⟨by decide, by decide⟩ (cached_of_none rfl) (by decide) (Kernel.eager_writesAll _)
    (Kernel.eager_readsOk _) (Kernel.eager_diskOk _) (by decide) hp).mpr (by decide)

/-- A CopyData message of length 2^24 is not framed: its size comes to `1`. -/
theorem not_framed_copyData :
    ¬ ∀ (m : Mbuf) (k : Kernel) (msg : Message) (rest : List Octet), m.Wf → m.Cached → 5 ≤ m.available →
      k.WritesAll → k.ReadsOk → k.DiskOk → msg.lengthField < 2 ^ 31 →
      pending m k = msg.octets ++ rest → Framed m k msg := by
  intro hall
  obtain ⟨zeros, hzeros⟩ : ∃ zeros : List Octet, zeros.length = 2 ^ 24 - 4 :=
    ⟨List.replicate _ 0, List.length_replicate⟩
  have hlen : (⟨some 0x64, by decide, zeros⟩ : Message).lengthField = 2 ^ 24 := by
    rw [Message.lengthField, hzeros]
    omega
  have hp : pending ((pgrMbufNew 16).put [0x64, 1, 0, 0, 0]) (.eager fun _ => zeros) =
      (⟨some 0x64, by decide, zeros⟩ : Message).octets ++ [] := by
    rw [pending, show ((pgrMbufNew 16).put [0x64, 1, 0, 0, 0]).window = [0x64, 1, 0, 0, 0] by decide,
      Message.octets, hlen, List.append_nil]
    rfl
  have hf := hall _ _ _ _ ⟨by decide, by decide⟩ (cached_of_none rfl) (by decide) (Kernel.eager_writesAll _)
    (Kernel.eager_readsOk _) (Kernel.eager_diskOk _) (by rw [hlen]; decide) hp
  have hsize := hf.size
  rw [show size ((pgrMbufNew 16).put [0x64, 1, 0, 0, 0]) = 1 by decide, Message.length_octets, hlen] at hsize
  simp at hsize

end PgRouter.Wire
