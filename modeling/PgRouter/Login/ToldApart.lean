import PgRouter.Login.Startup
import PgRouter.Wire.Recognition

/-!
# The messages that open a connection

A StartupMessage, an SSLRequest and a CancelRequest have no type octet. `pgr_mbuf_msgtype` tells them apart by
their length, and in the case of the SSLRequest by the code that follows it, and its results for them are
small numbers: `1`, `2` and `3`.

## What is proved

Every message of 16 octets without a type is taken for a CancelRequest, whatever its code: a StartupMessage
of that length, too. And a message whose type octet is `1`, `2` or `3` is taken for one without a type. In all
other cases the messages are told apart (`toldApart_iff`).
-/

namespace PgRouter.Login

open Foundation Wire

/-- `1234` and `5679`: the code of an SSLRequest. -/
def SSL_CODE : List Octet := [0x04, 0xd2, 0x16, 0x2f]

/-- `1234` and `5678`: the code of a CancelRequest. -/
def CANCEL_CODE : List Octet := [0x04, 0xd2, 0x16, 0x2e]

/-- An SSLRequest, which is of 8 octets. -/
def IsSslRequest (msg : Message) : Prop := msg.type = none ∧ msg.payload = SSL_CODE

/-- A CancelRequest, which is of 16 octets: behind its code are a process and a key. -/
def IsCancelRequest (msg : Message) : Prop := msg.type = none ∧ msg.octets.length = 16 ∧ CANCEL_CODE <+: msg.payload

/-- A StartupMessage such as `startup_message` writes for some parameters. -/
def IsStartupMessage (msg : Message) : Prop :=
  msg.type = none ∧ ∃ ps : List Param, ps ≠ [] ∧ msg.octets = startupOctets ps

/-- The message `msg` is told apart from messages of other kinds. -/
structure ToldApart (m : Mbuf) (msg : Message) : Prop where
  /-- A StartupMessage is. -/
  startup : IsStartupMessage msg → pgrMbufMsgtype m = MSG_STARTUP
  /-- Nothing but an SSLRequest is taken for one. -/
  sslreq : pgrMbufMsgtype m = MSG_SSLREQ ↔ IsSslRequest msg
  /-- Nothing but a CancelRequest is taken for one. -/
  cancel : pgrMbufMsgtype m = MSG_CANCEL ↔ IsCancelRequest msg
  /-- A message with a type is not taken for one without. -/
  typed : msg.type ≠ none →
    pgrMbufMsgtype m ≠ MSG_STARTUP ∧ pgrMbufMsgtype m ≠ MSG_SSLREQ ∧ pgrMbufMsgtype m ≠ MSG_CANCEL

/-- What is taken for the code of an SSLRequest is one. -/
theorem ssl_code_iff {b : ℕ → Octet} {i : ℕ} :
    u16 b (i + 4) = 1234 ∧ u16 b (i + 6) = 5679 ↔ slice b (i + 4) (i + 8) = SSL_CODE := by
  have h4 := (b (i + 4)).toNat_lt
  have h5 := (b (i + 5)).toNat_lt
  have h6 := (b (i + 6)).toNat_lt
  have h7 := (b (i + 7)).toNat_lt
  have hslice : slice b (i + 4) (i + 8) = [b (i + 4), b (i + 5), b (i + 6), b (i + 7)] := by
    rw [slice_cons b (by omega), slice_cons b (by omega), slice_cons b (by omega), slice_cons b (by omega),
      slice_eq_nil b (by omega)]
  rw [u16_eq, u16_eq, hslice, SSL_CODE]
  simp only [List.cons.injEq, and_true, ← UInt8.toNat_inj]
  have e4 : (0x04 : Octet).toNat = 4 := rfl
  have e5 : (0xd2 : Octet).toNat = 210 := rfl
  have e6 : (0x16 : Octet).toNat = 22 := rfl
  have e7 : (0x2f : Octet).toNat = 47 := rfl
  simp only [e4, e5, e6, e7, Nat.add_assoc, Nat.reduceAdd]
  constructor
  · rintro ⟨h1, h2⟩
    refine ⟨?_, ?_, ?_, ?_⟩ <;> omega
  · rintro ⟨h1, h2, h3, h4⟩
    constructor <;> omega

/-- The type of an untyped message, by its length and its code. -/
theorem msgtype_untyped_eq {m : Mbuf} (h : m.Wf) {msg : Message} (hmsg : msg.octets <+: m.window)
    (ht : msg.type = none) (hshort : msg.lengthField < 2 ^ 24) :
    pgrMbufMsgtype m = if msg.payload = SSL_CODE then MSG_SSLREQ else if msg.octets.length = 16 then MSG_CANCEL
      else if 9 ≤ msg.octets.length then MSG_STARTUP else -1 := by
  have hfirst := first_untyped hmsg ht hshort
  have hav := available_of_isPrefix hmsg
  have hlen : msg.octets.length = msg.payload.length + 4 := by
    rw [msg.length_octets, ht, Message.lengthField]
    exact Nat.zero_add _
  have hmsglen : pgrMbufMsglength m = msg.payload.length := by
    by_cases hav5 : 5 ≤ m.available
    · obtain ⟨rest, hrest⟩ := hmsg
      have hp : pending m (Kernel.eager fun _ => []) = msg.octets ++ rest := by
        rw [hrest]
        exact List.append_nil _
      rw [pgrMbufMsglength_octets h hav5 hshort hp, Message.lengthField, Nat.add_sub_cancel]
    · rw [pgrMbufMsglength, if_pos (by omega)]
      omega
  have hcode : msg.payload = SSL_CODE ↔ pgrMbufMsglength m = 4 ∧ 8 ≤ m.available ∧
      u16 m.buf (m.start + 4) = 1234 ∧ u16 m.buf (m.start + 6) = 5679 := by
    rw [hmsglen, ssl_code_iff]
    have hslice : msg.payload.length = 4 → slice m.buf (m.start + 4) (m.start + 8) = msg.payload := by
      intro h4
      refine List.ext_getElem? fun i => ?_
      by_cases hi : i < 4
      · have hget : msg.octets[4 + i]? = some msg.payload[i] := by
          rw [Message.octets, ht, Option.toList_none, List.nil_append,
            List.getElem?_append_right (Nat.le_add_right 4 i), show (be32 msg.lengthField).length = 4 from rfl,
            Nat.add_sub_cancel_left, List.getElem?_eq_getElem]
        rw [getElem?_slice _ (by omega), List.getElem?_eq_getElem (by omega), Nat.add_assoc, buf_of_isPrefix hmsg hget]
      · rw [List.getElem?_eq_none (by rw [length_slice]; omega), List.getElem?_eq_none (by omega)]
    constructor
    · intro heq
      have h4 : msg.payload.length = 4 := by rw [heq]; rfl
      exact ⟨h4, by omega, by rw [hslice h4, heq]⟩
    · rintro ⟨h4, -, hs⟩
      rw [← hslice h4, hs]
  rw [pgrMbufMsgtype, if_neg (by omega), if_pos hfirst]
  simp only
  rw [if_congr hcode.symm rfl rfl, hmsglen, hlen]
  simp only [show msg.payload.length + 4 = 16 ↔ msg.payload.length = 12 by omega,
    show 9 ≤ msg.payload.length + 4 ↔ 5 ≤ msg.payload.length by omega]

/-- The octets of a StartupMessage begin with its length and with the version, and there are more. -/
theorem IsStartupMessage.payload_eq {msg : Message} (h : IsStartupMessage msg) :
    ∃ rest, msg.payload = [0, 3, 0, 0] ++ rest ∧ 3 ≤ rest.length := by
  obtain ⟨ht, ps, hps, hoct⟩ := h
  refine ⟨paramsOctets ps, ?_, ?_⟩
  · rw [Message.octets, ht, Option.toList_none, List.nil_append, startupOctets] at hoct
    exact (List.append_inj hoct rfl).2
  · obtain ⟨p, ps, rfl⟩ := List.exists_cons_of_ne_nil hps
    simp only [paramsOctets, paramOctets, List.flatMap_cons, List.length_append, List.length_cons, List.length_nil]
    omega

/-- An untyped message of 16 octets which is not a CancelRequest is what goes wrong among those without a type. -/
theorem toldApart_untyped_iff {m : Mbuf} (h : m.Wf) {msg : Message} (hmsg : msg.octets <+: m.window)
    (ht : msg.type = none) (hshort : msg.lengthField < 2 ^ 24) :
    ToldApart m msg ↔ (msg.octets.length = 16 → IsCancelRequest msg) := by
  have htype := msgtype_untyped_eq h hmsg ht hshort
  have hlen : msg.octets.length = msg.payload.length + 4 := by
    rw [msg.length_octets, ht, Message.lengthField]
    exact Nat.zero_add _
  have hssl : msg.payload = SSL_CODE → msg.octets.length = 8 := fun hc => by rw [hlen, hc]; rfl
  constructor
  · intro hapart h16
    refine hapart.cancel.mp ?_
    rw [htype, if_neg fun hc => by have := hssl hc; omega, if_pos h16]
  · intro hcancel
    refine ⟨?_, ?_, ?_, fun hno => absurd ht hno⟩
    · intro hstart
      obtain ⟨rest, hpay, hrest⟩ := hstart.payload_eq
      have hnossl : msg.payload ≠ SSL_CODE := by
        rw [hpay, SSL_CODE]
        exact fun hc => absurd (List.cons.inj hc).1 (by decide)
      have hnocancel : msg.octets.length ≠ 16 := by
        intro h16
        have hcode := (hcancel h16).2.2
        rw [hpay, CANCEL_CODE] at hcode
        exact absurd (List.cons_prefix_cons.mp hcode).1 (by decide)
      have h9 : 9 ≤ msg.octets.length := by
        rw [hlen, hpay, List.length_append]
        exact Nat.add_le_add_right (Nat.add_le_add_left (Nat.le_of_succ_le (Nat.le_of_succ_le hrest)) 4) 4
      rw [htype, if_neg hnossl, if_neg hnocancel, if_pos h9]
    · rw [htype, IsSslRequest]
      split_ifs with hc h16 h9
      · simp [ht, hc]
      · simp [hc, MSG_CANCEL, MSG_SSLREQ]
      · simp [hc, MSG_STARTUP, MSG_SSLREQ]
      · simp [hc, MSG_SSLREQ]
    · rw [htype]
      split_ifs with hc h16 h9
      · have h8 := hssl hc
        simp [IsCancelRequest, h8, MSG_CANCEL, MSG_SSLREQ]
      · simp [hcancel h16]
      · simp [IsCancelRequest, h16, MSG_CANCEL, MSG_STARTUP]
      · simp [IsCancelRequest, h16, MSG_CANCEL]

/-- Type octets that are the results for messages without a type are what goes wrong among those with one. -/
theorem toldApart_typed_iff {m : Mbuf} {msg : Message} (hmsg : msg.octets <+: m.window) {t : Octet}
    (ht : msg.type = some t) : ToldApart m msg ↔ t ≠ 1 ∧ t ≠ 2 ∧ t ≠ 3 := by
  have hstartup : pgrMbufMsgtype m = MSG_STARTUP ↔ t = 1 := msgtype_eq_iff hmsg ht (n := 1) (by decide)
  have hssl : pgrMbufMsgtype m = MSG_SSLREQ ↔ t = 2 := msgtype_eq_iff hmsg ht (n := 2) (by decide)
  have hcancel : pgrMbufMsgtype m = MSG_CANCEL ↔ t = 3 := msgtype_eq_iff hmsg ht (n := 3) (by decide)
  have hno : msg.type ≠ none := by rw [ht]; exact Option.some_ne_none t
  constructor
  · intro hapart
    obtain ⟨h1, h2, h3⟩ := hapart.typed hno
    exact ⟨fun h => h1 (hstartup.mpr h), fun h => h2 (hssl.mpr h), fun h => h3 (hcancel.mpr h)⟩
  · rintro ⟨h1, h2, h3⟩
    refine ⟨fun h => absurd h.1 hno, ?_, ?_, fun _ => ?_⟩
    · exact iff_of_false (fun h => h2 (hssl.mp h)) fun h => hno h.1
    · exact iff_of_false (fun h => h3 (hcancel.mp h)) fun h => hno h.1
    · exact ⟨fun h => h1 (hstartup.mp h), fun h => h2 (hssl.mp h), fun h => h3 (hcancel.mp h)⟩

/-- **The messages are told apart** just when an untyped one of 16 octets is a CancelRequest, and a typed one has
not the type octet `1`, `2` or `3`. -/
theorem toldApart_iff {m : Mbuf} (h : m.Wf) {msg : Message} (hmsg : msg.octets <+: m.window)
    (hshort : msg.type = none → msg.lengthField < 2 ^ 24) :
    ToldApart m msg ↔ (msg.type = none → msg.octets.length = 16 → IsCancelRequest msg) ∧
      ∀ t, msg.type = some t → t ≠ 1 ∧ t ≠ 2 ∧ t ≠ 3 := by
  cases ht : msg.type with
  | none =>
    rw [toldApart_untyped_iff h hmsg ht (hshort ht)]
    simp
  | some t =>
    rw [toldApart_typed_iff hmsg ht]
    simp

/-- An SSLRequest is told apart. -/
theorem toldApart_iff_sslRequest :
    ToldApart ((pgrMbufNew 16).put [0, 0, 0, 8, 0x04, 0xd2, 0x16, 0x2f]) ⟨none, by decide, SSL_CODE⟩ :=
  (toldApart_iff ⟨by decide, by decide⟩ ⟨[], by decide⟩ fun _ => by decide).mpr
    ⟨fun _ h16 => absurd h16 (by decide), fun _ ht => absurd ht.symm (Option.some_ne_none _)⟩

/-- The StartupMessage of the user `a` is of 16 octets: it is taken for a CancelRequest. -/
theorem not_toldApart : ¬ ∀ (m : Mbuf) (msg : Message), m.Wf → msg.octets <+: m.window →
    (msg.type = none → msg.lengthField < 2 ^ 24) → ToldApart m msg := by
  intro hall
  let msg : Message := ⟨none, by decide, [0, 3, 0, 0] ++ paramsOctets [⟨USER, [0x61]⟩]⟩
  have hapart := hall ((pgrMbufNew 16).put msg.octets) msg ⟨by decide, by decide⟩ ⟨[], by decide +kernel⟩
    fun _ => by decide
  have hstart : IsStartupMessage msg := ⟨rfl, [⟨USER, [0x61]⟩], List.cons_ne_nil _ _, by decide⟩
  exact absurd (hapart.startup hstart) (by decide +kernel)

end PgRouter.Login
