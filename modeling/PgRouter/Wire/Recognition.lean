import PgRouter.Wire.Stream

/-!
# Recognising a message

`pgr_mbuf_msgtype` and `pgr_mbuf_iserror` look at the current message. This module has what they find of a
message that is in the buffer as a whole, whatever may be behind it.

## What is proved

The type of a message that has one is its type octet, a `char`; the first octet of one that has none is `0`
(`msgtype_typed`, `first_untyped`). An ErrorResponse with a certain code is found just when there is one
(`iserror_iff`): the scan does not take for a code what is part of a string, and it does not go on behind the
message.
-/

namespace PgRouter.Wire

open Foundation

/-- The octets that are available are those at `buf + start`. -/
theorem getElem?_window {m : Mbuf} {i : ℕ} (h : i < m.available) : m.window[i]? = some (m.buf (m.start + i)) :=
  getElem?_slice _ (by unfold Mbuf.available at h; omega)

theorem head?_window {m : Mbuf} (h : 0 < m.available) : m.window.head? = some (m.buf m.start) := by
  rw [Mbuf.window, slice_cons _ (by unfold Mbuf.available at h; omega), List.head?_cons]

theorem frameSize_window {m : Mbuf} (h : m.Wf) (hav : 5 ≤ m.available) : frameSize m.window = size m := by
  rw [size_eq_frameSize h (Kernel.eager fun _ => []) hav, pending]
  exact (congrArg frameSize (List.append_nil _)).symm

/-- So are those of a message that is in the buffer as a whole. -/
theorem buf_of_isPrefix {m : Mbuf} {d : List Octet} (hd : d <+: m.window) {i : ℕ} {a : Octet} (ha : d[i]? = some a) :
    m.buf (m.start + i) = a := by
  obtain ⟨rest, hrest⟩ := hd
  have hi := (List.getElem?_eq_some_iff.mp ha).1
  have hlen := congrArg List.length hrest
  rw [List.length_append, length_window] at hlen
  have hget := getElem?_window (show i < m.available by omega)
  rw [← hrest, List.getElem?_append_left hi, ha] at hget
  exact (Option.some.inj hget).symm

theorem available_of_isPrefix {m : Mbuf} {d : List Octet} (hd : d <+: m.window) : d.length ≤ m.available := by
  rw [← length_window]
  exact hd.length_le

/-- The first octet of an untyped message is that of its length. -/
theorem first_untyped {m : Mbuf} {msg : Message} (hmsg : msg.octets <+: m.window) (ht : msg.type = none)
    (hshort : msg.lengthField < 2 ^ 24) : m.buf m.start = 0 := by
  refine buf_of_isPrefix hmsg (i := 0) ?_
  rw [Message.octets, ht, be32, Nat.div_eq_of_lt hshort]
  rfl

/-- The first octet of a typed message is its type octet. -/
theorem first_typed {m : Mbuf} {msg : Message} (hmsg : msg.octets <+: m.window) {t : Octet} (ht : msg.type = some t) :
    m.buf m.start = t ∧ t ≠ 0 := by
  refine ⟨buf_of_isPrefix hmsg (i := 0) ?_, fun h0 => msg.type_ne (by rw [ht, h0])⟩
  rw [Message.octets, ht]
  rfl

/-- The type of a typed message is its type octet. -/
theorem msgtype_typed {m : Mbuf} {msg : Message} (hmsg : msg.octets <+: m.window) {t : Octet} (ht : msg.type = some t) :
    pgrMbufMsgtype m = t.toInt8.toInt := by
  obtain ⟨hfirst, h0⟩ := first_typed hmsg ht
  have hav := available_of_isPrefix hmsg
  rw [msg.length_octets, Message.lengthField] at hav
  rw [pgrMbufMsgtype, if_neg (by omega), hfirst, if_neg h0]

/-- So it is of a message that is pending, as soon as some of it is available. -/
theorem msgtype_of_pending {m : Mbuf} (hav : 0 < m.available) {k : Kernel} {msg : Message} {t : Octet}
    (ht : msg.type = some t) {rest : List Octet} (hp : pending m k = msg.octets ++ rest) :
    pgrMbufMsgtype m = t.toInt8.toInt := by
  have hhead := head?_window hav
  have hwin : m.window ≠ [] := fun hnil => by rw [hnil] at hhead; cases hhead
  have hfirst : (m.window ++ k.unread m.infd).head? = some t := by
    change (pending m k).head? = some t
    rw [hp, Message.octets, ht]
    rfl
  rw [List.head?_append_of_ne_nil _ hwin] at hfirst
  have hbuf : m.buf m.start = t := Option.some.inj (hhead.symm.trans hfirst)
  have h0 : t ≠ 0 := fun h0 => msg.type_ne (by rw [ht, h0])
  rw [pgrMbufMsgtype, if_neg (by omega), hbuf, if_neg h0]

/-- A message whose first octet is a code of the source is taken for such a message. -/
theorem msgtype_of_head? {m : Mbuf} {t : Octet} (h : m.window.head? = some t) (h0 : t ≠ 0) (hlt : t < 0x80) :
    pgrMbufMsgtype m = t.toNat := by
  have hav : 0 < m.available := by
    rw [← length_window]
    exact List.length_pos_iff.mpr fun hnil => by rw [hnil] at h; cases h
  have hbuf : m.buf m.start = t := Option.some.inj ((head?_window hav).symm.trans h)
  have hlt' : t.toNat < 128 := hlt
  rw [pgrMbufMsgtype, if_neg (by omega), hbuf, if_neg h0, Int8.toInt, UInt8.toBitVec_toInt8,
    BitVec.toInt_eq_toNat_of_lt (by rw [UInt8.toNat_toBitVec]; omega), UInt8.toNat_toBitVec]

/-- The type of a message whose first octet is `0`. -/
theorem msgtype_of_zero {m : Mbuf} (hav : m.available ≠ 0) (h0 : m.buf m.start = 0) : pgrMbufMsgtype m =
    if pgrMbufMsglength m = 4 ∧ 8 ≤ m.available ∧ u16 m.buf (m.start + 4) = 1234 ∧ u16 m.buf (m.start + 6) = 5679 then
      MSG_SSLREQ
    else if pgrMbufMsglength m = 12 then MSG_CANCEL else if 5 ≤ pgrMbufMsglength m then MSG_STARTUP else -1 := by
  rw [pgrMbufMsgtype, if_neg hav, if_pos h0]

/-- Of such a message five octets are needed. -/
theorem five_le_of_zero {m : Mbuf} (hfound : 0 ≤ pgrMbufMsgtype m) (h0 : m.buf m.start = 0) : 5 ≤ m.available := by
  by_contra hlt
  have hlen : pgrMbufMsglength m = 0 := if_pos (by omega)
  by_cases hav : m.available = 0
  · rw [pgrMbufMsgtype, if_pos hav] at hfound
    omega
  · rw [msgtype_of_zero hav h0, hlen] at hfound
    simp at hfound

/-- A type that is found stays when more octets are available. -/
theorem msgtype_of_agree {m m' : Mbuf} (hav : m.available ≤ m'.available)
    (hbuf : ∀ i < m.available, m'.buf (m'.start + i) = m.buf (m.start + i)) (hfound : 0 ≤ pgrMbufMsgtype m) :
    pgrMbufMsgtype m' = pgrMbufMsgtype m := by
  have hne : m.available ≠ 0 := fun h => by
    rw [pgrMbufMsgtype, if_pos h] at hfound
    omega
  have hne' : m'.available ≠ 0 := by omega
  have hfirst : m'.buf m'.start = m.buf m.start := hbuf 0 (by omega)
  by_cases h0 : m.buf m.start = 0
  · have h5 := five_le_of_zero hfound h0
    have hshort : ¬ m.available < 5 := not_lt.mpr h5
    have hshort' : ¬ m'.available < 5 := not_lt.mpr (h5.trans hav)
    have hlen : pgrMbufMsglength m' = pgrMbufMsglength m := by
      rw [pgrMbufMsglength, pgrMbufMsglength, if_neg hshort, if_neg hshort', hfirst, if_pos h0, if_pos h0, u32_eq,
        u32_eq, hbuf 1 (by omega), hbuf 2 (by omega), hbuf 3 (by omega)]
    rw [msgtype_of_zero hne h0] at hfound
    rw [msgtype_of_zero hne h0, msgtype_of_zero hne' (hfirst.trans h0), hlen]
    by_cases h8 : 8 ≤ m.available
    · have hcode : u16 m'.buf (m'.start + 4) = u16 m.buf (m.start + 4) ∧
          u16 m'.buf (m'.start + 6) = u16 m.buf (m.start + 6) := by
        simp only [u16, Nat.add_assoc, Nat.reduceAdd, hbuf 4 (by omega), hbuf 5 (by omega), hbuf 6 (by omega),
          hbuf 7 (by omega), and_self]
      simp only [hcode.1, hcode.2, h8, h8.trans hav]
    · -- a code would be behind what is available
      have h4 : pgrMbufMsglength m ≠ 4 := by
        intro h4
        rw [h4, if_neg (fun h => h8 h.2.1)] at hfound
        simp at hfound
      simp only [h4, false_and, if_false]
  · rw [pgrMbufMsgtype, pgrMbufMsgtype, if_neg hne, if_neg hne', hfirst, if_neg h0, if_neg h0]

/-- A `char` that is not negative is its octet. -/
theorem toInt8_eq_iff {t : Octet} {n : ℕ} (hn : n < 128) : t.toInt8.toInt = n ↔ t = UInt8.ofNat n := by
  have ht := t.toNat_lt
  rw [← UInt8.toNat_inj, UInt8.toNat_ofNat', Nat.mod_eq_of_lt (by omega), Int8.toInt, UInt8.toBitVec_toInt8,
    BitVec.toInt_eq_toNat_cond, UInt8.toNat_toBitVec]
  split <;> omega

/-- A typed message has the type `n` just when that is its type octet. -/
theorem msgtype_eq_iff {m : Mbuf} {msg : Message} (hmsg : msg.octets <+: m.window) {t : Octet} (ht : msg.type = some t)
    {n : ℕ} (hn : n < 128) : pgrMbufMsgtype m = n ↔ t = UInt8.ofNat n := by
  rw [msgtype_typed hmsg ht]
  exact toInt8_eq_iff hn

/-- **The code of an error.** A message that is in the buffer as a whole, and well formed if it is an
ErrorResponse, is found to be one with the code `code` just when it is one whose code begins with it. -/
theorem iserror_iff {m : Mbuf} {msg : Message} (hmsg : msg.octets <+: m.window)
    (hshort : msg.type = none → msg.lengthField < 2 ^ 24)
    (hwell : msg.type = some 0x45 → ∃ fields, msg.payload = errorPayload fields) {code : List Octet}
    (hlen : code.length = 5) (hcode : ∀ c ∈ code, c ≠ 0) :
    pgrMbufIserror m (some code) = 0 ↔ msg.type = some 0x45 ∧
      ∃ fields v, msg.payload = errorPayload fields ∧ sqlstate fields = some v ∧ code <+: v := by
  have hav := available_of_isPrefix hmsg
  cases ht : msg.type with
  | none =>
    have hfirst := first_untyped hmsg ht (hshort ht)
    have hno : pgrMbufMsgtype m ≠ chr 'E' := fun he => ne_zero_of_msgtype he (by decide) hfirst
    simp [pgrMbufIserror, hno]
  | some t =>
    have htype := msgtype_typed hmsg ht
    have hiff : pgrMbufMsgtype m = chr 'E' ↔ t = 0x45 := msgtype_eq_iff hmsg ht (n := 'E'.toNat) (by decide)
    by_cases he : t = 0x45
    · subst he
      obtain ⟨fields, hfields⟩ := hwell ht
      have hoct : msg.octets = [0x45] ++ be32 msg.lengthField ++ errorPayload fields := by
        rw [Message.octets, ht, hfields]
        rfl
      have hfive : ([0x45] ++ be32 msg.lengthField).length = 5 := rfl
      have hpayload : ∀ i (hi : i < (errorPayload fields).length),
          m.buf (m.start + 5 + i) = (errorPayload fields)[i] := by
        intro i hi
        rw [Nat.add_assoc]
        refine buf_of_isPrefix hmsg ?_
        rw [hoct, List.getElem?_append_right (by omega), hfive, Nat.add_sub_cancel_left]
        exact List.getElem?_eq_getElem hi
      have hfill : m.start + 5 + (errorPayload fields).length ≤ m.fill := by
        rw [hoct, List.length_append] at hav
        unfold Mbuf.available at hav
        omega
      have hscan := scanFields_eq_zero_iff hpayload hfill hlen hcode
      rw [pgrMbufIserror, if_neg (not_not.mpr (hiff.mpr rfl))]
      simp only [true_and]
      rw [hscan]
      constructor
      · rintro ⟨v, hv, hpre⟩
        exact ⟨fields, v, hfields, hv, hpre⟩
      · rintro ⟨fields', v, hfields', hv, hpre⟩
        refine ⟨v, ?_, hpre⟩
        rw [← hv, ← readSqlstate_payload fields [], ← readSqlstate_payload fields' [], ← hfields, ← hfields']
    · have hno : pgrMbufMsgtype m ≠ chr 'E' := fun h => he (hiff.mp h)
      simp [pgrMbufIserror, hno, he]

/-- An ErrorResponse with the code 25006, and the first octets of another message. -/
theorem iserror_iff_refusal :
    let fields : List ErrorField := [⟨0x43, [0x32, 0x35, 0x30, 0x30, 0x36], by decide, by decide +kernel⟩]
    let msg : Message := ⟨some 0x45, by decide, errorPayload fields⟩
    let m := (pgrMbufNew 16).put (msg.octets ++ [0x5a, 0])
    pgrMbufIserror m (some [0x32, 0x35, 0x30, 0x30, 0x36]) = 0 ↔ msg.type = some 0x45 ∧
      ∃ fields v, msg.payload = errorPayload fields ∧ sqlstate fields = some v ∧
        [0x32, 0x35, 0x30, 0x30, 0x36] <+: v := by
  intro fields msg m
  have hwf : (pgrMbufNew 16).Wf := ⟨le_rfl, Nat.zero_le _⟩
  have hwin : m.window = msg.octets ++ [0x5a, 0] := window_put hwf _
  have hmsg : msg.octets <+: m.window := ⟨[0x5a, 0], hwin.symm⟩
  exact iserror_iff hmsg nofun (fun _ => ⟨fields, rfl⟩) rfl (by decide +kernel)

end PgRouter.Wire
