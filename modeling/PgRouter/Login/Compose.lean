import PgRouter.Login.Startup

/-!
# The messages that the router composes

`startup_message` and `error_response` write the length of a message first, and then append its parts one
by one with `pgr_mbuf_cat`, whose result they do not look at.

## What is proved

A StartupMessage is whole, or else nothing of it is written, just when it fits (`startupMessage_whole_iff`):
if it does not, the parts that do not fit are missing from it, and it is said to be written. An
ErrorResponse never has the length that it says it has: that counts the type octet, which the length of a
message does not (`not_wellFramed`).
-/

namespace PgRouter.Login

open Foundation Wire

/-! ### The StartupMessage -/

/-- The length that an untyped message says is its own. -/
def declaredLength : List Octet → ℕ
  | a :: b :: c :: d :: _ => a.toNat * 2 ^ 24 + b.toNat * 2 ^ 16 + c.toNat * 2 ^ 8 + d.toNat
  | _ => 0

/-- Four octets say what a length is modulo 2^32. -/
theorem declaredLength_be32 (n : ℕ) (rest : List Octet) : declaredLength (be32 n ++ rest) = n % 2 ^ 32 := by
  simp only [be32, List.cons_append, List.nil_append, declaredLength, UInt8.toNat_ofNat']
  omega

/-- All or nothing: `startup_message` has returned `0`, and has appended the message of the parameters, whose
length is as it says; or it has not, and what is in the buffer is as it was. -/
def AllOrNothing (m : Mbuf) (c : Connection) : Prop :=
  ((startupMessage m c).1 = 0 ∧ ∃ d, (startupMessage m c).2.window = m.window ++ d ∧ d = startupOctets c.params ∧
      declaredLength d = d.length) ∨
    ((startupMessage m c).1 ≠ 0 ∧ (startupMessage m c).2.window = m.window)

/-- It is all or nothing if there is room for all of it. -/
theorem allOrNothing_of_fits {m : Mbuf} (h : m.Wf) {c : Connection}
    (hroom : (startupOctets c.params).length ≤ m.len - m.fill) (hlen : (startupOctets c.params).length < 2 ^ 32) :
    AllOrNothing m c := by
  refine .inl ⟨rfl, startupOctets c.params, ?_, rfl, ?_⟩
  · rw [startupMessage_put hroom, window_put h]
  · have hdeclared : declaredLength (startupOctets c.params) = (8 + (paramsOctets c.params).length) % 2 ^ 32 :=
      declaredLength_be32 _ _
    rw [hdeclared, ← length_startupOctets, Nat.mod_eq_of_lt hlen]

/-- It is not if there is not. -/
theorem fits_of_allOrNothing {m : Mbuf} (h : m.Wf) {c : Connection} (hall : AllOrNothing m c) :
    (startupOctets c.params).length ≤ m.len - m.fill ∧ (startupOctets c.params).length < 2 ^ 32 := by
  obtain ⟨-, d, hwin, rfl, hlen⟩ | ⟨hrc, -⟩ := hall
  · have hle := length_window_appendAll h (startupPieces c)
    rw [startupMessage_eq] at hwin
    rw [hwin, List.length_append] at hle
    refine ⟨by omega, ?_⟩
    have hdeclared : declaredLength (startupOctets c.params) = (8 + (paramsOctets c.params).length) % 2 ^ 32 :=
      declaredLength_be32 _ _
    rw [← hlen, hdeclared]
    exact Nat.mod_lt _ (by decide)
  · exact absurd rfl hrc

/-- **A StartupMessage is all or nothing** just when there is room for all of it. -/
theorem startupMessage_whole_iff {m : Mbuf} (h : m.Wf) (c : Connection) :
    AllOrNothing m c ↔
      (startupOctets c.params).length ≤ m.len - m.fill ∧ (startupOctets c.params).length < 2 ^ 32 :=
  ⟨fits_of_allOrNothing h, fun hfits => allOrNothing_of_fits h hfits.1 hfits.2⟩

/-- A connection without parameters. -/
def bareConnection : Connection := pgrConnInit (.replicate 4 0)

/-- A StartupMessage with a user and a database fits the buffer of `pgr_conn_connect`. -/
theorem startupMessage_whole_user : AllOrNothing (pgrMbufNew 512)
    { bareConnection with params := [⟨USER, [0x62, 0x6f, 0x62]⟩, ⟨DATABASE, [0x64, 0x62]⟩] } :=
  (startupMessage_whole_iff ⟨le_rfl, Nat.zero_le _⟩ _).mpr ⟨by decide, by decide⟩

/-- One with a name of 600 characters does not. -/
theorem not_startupMessage_whole : ¬ ∀ (m : Mbuf) (c : Connection), m.Wf → AllOrNothing m c := by
  intro hall
  have hwf : (pgrMbufNew 512).Wf := ⟨le_rfl, Nat.zero_le _⟩
  obtain ⟨name, hname⟩ : ∃ name : CString, name.length = 600 := ⟨List.replicate 600 0x61, List.length_replicate⟩
  have hfits := (fits_of_allOrNothing hwf (hall _ { bareConnection with params := [⟨USER, name⟩] } hwf)).1
  have hroom : (pgrMbufNew 512).len - (pgrMbufNew 512).fill = 512 := rfl
  rw [length_startupOctets, hroom] at hfits
  simp only [paramsOctets, paramOctets, List.flatMap_cons, List.flatMap_nil, List.length_append, List.length_cons,
    hname] at hfits
  omega

/-! ### The ErrorResponse -/

/-- The ErrorResponse that `error_response` writes. -/
def errorOctets (sev code msg : CString) : List Octet := (errorPieces sev code msg).flatten

theorem errorResponse_eq (m : Mbuf) (sev code msg : CString) :
    errorResponse m sev code msg = appendAll m (errorPieces sev code msg) := rfl

/-- Behind its type octet is the number of its octets. -/
theorem errorOctets_eq (sev code msg : CString) : ∃ rest, errorOctets sev code msg =
    0x45 :: (be32 (errorOctets sev code msg).length ++ rest) ∧ rest ≠ [] := by
  have hlen : (errorOctets sev code msg).length =
      1 + 4 + (1 + sev.length + 1) + (1 + code.length + 1) + (1 + msg.length + 1) + 1 := by
    simp only [errorOctets, errorPieces, List.flatten_cons, List.flatten_nil, List.length_append, List.length_cons,
      List.length_nil, be32]
    omega
  rw [hlen]
  exact ⟨_, rfl, by simp⟩

/-- What is taken for its size is one more than the number of its octets, modulo 2^24. -/
theorem frameSize_errorOctets (sev code msg : CString) :
    frameSize (errorOctets sev code msg) = (errorOctets sev code msg).length % 2 ^ 24 + 1 := by
  obtain ⟨rest, heq, hrest⟩ := errorOctets_eq sev code msg
  obtain ⟨r, rest, rfl⟩ := List.exists_cons_of_ne_nil hrest
  generalize errorOctets sev code msg = d at *
  generalize d.length = n at *
  rw [heq]
  simp only [be32, List.cons_append, List.nil_append, frameSize, if_neg (show (0x45 : Octet) ≠ 0 by decide), be24_ofNat]

/-- What is to be true of the buffer `m` when `error_response` has written the reply `d` with the code
`code` to it. -/
structure WellFramed (m : Mbuf) (d : List Octet) (code : CString) : Prop where
  /-- Exactly the reply has been appended. -/
  window : m.window = d
  /-- Its length is as it says. -/
  size : size m = m.available
  /-- `pgr_mbuf_relay` writes it, and nothing else, without reading. -/
  relay : ∀ k : Kernel, k.WritesAll → (pgrMbufRelay m k).1 = 0 ∧ (pgrMbufRelay m k).2.2.reads = k.reads ∧
    (pgrMbufRelay m k).2.2.sent = k.sent ++ d.map (Prod.mk m.outfd)
  /-- It is found to be an ErrorResponse with this code. -/
  iserror : pgrMbufIserror m (some code) = 0

/-- The size of the reply is taken to be one more than the number of its octets. -/
theorem size_errorOctets {m : Mbuf} (h : m.Wf) {sev code msg : CString} (hwin : m.window = errorOctets sev code msg) :
    size m = m.available % 2 ^ 24 + 1 := by
  have hav : m.available = (errorOctets sev code msg).length := by rw [← length_window, hwin]
  have h5 : 5 ≤ m.available := by
    obtain ⟨rest, heq, -⟩ := errorOctets_eq sev code msg
    rw [hav, heq, List.length_cons, List.length_append]
    exact Nat.succ_le_succ (Nat.le_add_right 4 _)
  have hpending : pending m (Kernel.eager fun _ => []) = errorOctets sev code msg := by
    rw [pending, hwin]
    exact List.append_nil _
  rw [size_eq_frameSize h (Kernel.eager fun _ => []) h5, hpending, frameSize_errorOctets, hav]

/-- **An ErrorResponse is never framed**: its length is not as it says. -/
theorem not_wellFramed {m : Mbuf} (h : m.Wf) (sev code msg : CString) :
    ¬ WellFramed (errorResponse m sev code msg) (errorOctets sev code msg) code := by
  intro hframed
  have hwf := (appendAll_wf h (errorPieces sev code msg)).1
  rw [← errorResponse_eq] at hwf
  have hsize := size_errorOctets hwf hframed.window
  rw [hframed.size] at hsize
  omega

/-- Nor is the reply to a password that is wrong. -/
theorem not_wellFramed_refusal :
    ¬ WellFramed (errorResponse (pgrMbufNew 512) ERROR INVALID_PASSWORD (failureText (some [0x61])))
      (errorOctets ERROR INVALID_PASSWORD (failureText (some [0x61]))) INVALID_PASSWORD :=
  not_wellFramed ⟨le_rfl, Nat.zero_le _⟩ ERROR INVALID_PASSWORD (failureText (some [0x61]))

/-- It is the reply to the user `a`, which fits, that says it is longer than it is. -/
theorem errorResponse_misframed :
    ¬ ∀ (m : Mbuf) (sev code msg : CString), m.Wf → m.fill = m.start → code.length = 5 →
      (errorOctets sev code msg).length ≤ m.len - m.fill →
        WellFramed (errorResponse m sev code msg) (errorOctets sev code msg) code := by
  intro hall
  have hframed := hall (pgrMbufNew 512) ERROR INVALID_PASSWORD (failureText (some [0x61]))
    ⟨le_rfl, Nat.zero_le _⟩ rfl rfl (by decide +kernel)
  exact absurd hframed.size (by decide +kernel)

end PgRouter.Login
