import PgRouter.Login.Termination

/-!
# The messages of a login

The messages that a client is expected to send during its login, and what `pgr_conn_accept` makes of
such a message if it is in the buffer as a whole: `extract_params` reads the parameters of a
StartupMessage one after the other (`extractLoop_eq`), and neither it nor `check_auth` looks at memory
that is not its own (`IsRequest.extractParams`, `IsRequest.checkAuth`).
-/

namespace PgRouter.Login

open Foundation Wire

/-! ### Parameters -/

/-- A parameter as it is transmitted. -/
def paramOctets (p : Param) : List Octet := p.name ++ 0 :: (p.value ++ [0])

/-- A list of parameters as it is transmitted. -/
def paramsOctets (ps : List Param) : List Octet := ps.flatMap paramOctets ++ [0]

/-- A parameter that can be transmitted. -/
structure IsParam (p : Param) : Prop where
  /-- Its name is not empty, which would end the list. -/
  name_ne : p.name ≠ []
  /-- Its name is a string. -/
  name : 0 ∉ p.name
  /-- Its value is a string. -/
  value : 0 ∉ p.value

/-- What the parameters do to the connection. An empty value is refused. -/
def extractAll (ctx : Context) (c : Connection) : List Param → ℤ × Connection
  | [] => (0, c)
  | p :: ps => if p.value = [] then (-1, { c with params := c.params ++ [⟨p.name, []⟩] })
    else extractAll ctx (setParam ctx c p.name p.value) ps

/-- A string is read up to its NUL. -/
theorem cstring_eq {m : Mbuf} {x : ℕ} {s v : List Octet} (h : slice m.buf x m.len = s ++ 0 :: v) (hs : 0 ∉ s) :
    cstring m x = some s := by
  have hne : ∀ a ∈ s, decide (a ≠ 0) = true := fun a ha => decide_eq_true fun h0 => hs (h0 ▸ ha)
  rw [cstring, h, if_pos (by simp), List.takeWhile_append_of_pos hne, List.takeWhile_cons_of_neg (by simp),
    List.append_nil]

/-- What follows it. -/
theorem slice_string {b : ℕ → Octet} {x n : ℕ} {s v : List Octet} (h : slice b x n = s ++ 0 :: v) :
    x + s.length < n ∧ slice b (x + s.length + 1) n = v ∧ (∀ a ∈ s.head?, b x = a) ∧ b (x + s.length) = 0 := by
  have hlen := congrArg List.length h
  rw [length_slice, List.length_append, List.length_cons] at hlen
  have hget : ∀ i, x + i < n → (s ++ 0 :: v)[i]? = some (b (x + i)) := fun i hi => h ▸ getElem?_slice b hi
  refine ⟨by omega, ?_, fun a ha => ?_, ?_⟩
  · rw [Nat.add_assoc, ← drop_slice, h, ← List.drop_drop, List.drop_left]
    rfl
  · have hfirst := hget 0 (by omega)
    rw [← List.head?_eq_getElem?, List.head?_append, Option.mem_def.mp ha] at hfirst
    exact (Option.some.inj hfirst).symm
  · have hlast := hget s.length (by omega)
    rw [List.getElem?_append_right le_rfl, Nat.sub_self] at hlast
    exact (Option.some.inj hlast).symm

/-- **`extract_params` reads the parameters** that are in the buffer. -/
theorem extractLoop_eq (ctx : Context) {m : Mbuf} {ps : List Param} (hps : ∀ p ∈ ps, IsParam p) (c : Connection) {x : ℕ}
    {v : List Octet} (h : slice m.buf x m.len = paramsOctets ps ++ v) :
    extractLoop ctx m c x = some (extractAll ctx c ps) := by
  induction ps generalizing c x with
  | nil =>
    obtain ⟨hlt, -, -, h0⟩ := slice_string (s := []) h
    rw [List.length_nil, Nat.add_zero] at hlt h0
    rw [extractLoop, if_neg (not_le.mpr hlt), if_pos h0, extractAll]
  | cons p ps ih =>
    have hp := hps p List.mem_cons_self
    have hname : slice m.buf x m.len = p.name ++ 0 :: (p.value ++ 0 :: (paramsOctets ps ++ v)) := by
      rw [h]
      simp [paramsOctets, paramOctets]
    obtain ⟨a, s, hs⟩ := List.exists_cons_of_ne_nil hp.name_ne
    obtain ⟨hlt, hvalue, hhead, -⟩ := slice_string hname
    have hne : m.buf x ≠ 0 := by
      rw [hhead a (by rw [hs]; rfl)]
      exact fun h0 => hp.name (by rw [hs, h0]; exact List.mem_cons_self)
    obtain ⟨hlt', hrest, hhead', h0⟩ := slice_string hvalue
    rw [extractLoop, if_neg (by omega), if_neg hne, cstring_eq hname hp.name]
    simp only
    rw [if_neg (by omega), extractAll]
    by_cases hempty : p.value = []
    · rw [hempty, List.length_nil, Nat.add_zero] at h0
      rw [if_pos h0, if_pos hempty]
    · obtain ⟨a', s', hs'⟩ := List.exists_cons_of_ne_nil hempty
      have hne' : m.buf (x + p.name.length + 1) ≠ 0 := by
        rw [hhead' a' (by rw [hs']; rfl)]
        exact fun h0 => hp.value (by rw [hs', h0]; exact List.mem_cons_self)
      rw [if_neg hne', if_neg hempty, cstring_eq hvalue hp.value]
      exact ih (fun q hq => hps q (List.mem_cons_of_mem p hq)) _ hrest

/-! ### Messages -/

/-- The messages that a client is expected to send. -/
inductive IsRequest : Message → Prop
  /-- An SSLRequest. -/
  | ssl : IsRequest ⟨none, nofun, [0x04, 0xd2, 0x16, 0x2f]⟩
  /-- A StartupMessage. -/
  | startup {version : List Octet} {ps : List Param} (long : version.length = 4) (params : ∀ p ∈ ps, IsParam p)
      (fits : version.length + (paramsOctets ps).length + 4 ≤ 512) : IsRequest ⟨none, nofun, version ++ paramsOctets ps⟩
  /-- A PasswordMessage. -/
  | password {text : List Octet} (string : 0 ∉ text) (fits : text.length + 6 ≤ 512) :
      IsRequest ⟨some 0x70, by decide, text ++ [0]⟩

/-- It fits into the buffer. -/
theorem IsRequest.length {msg : Message} (h : IsRequest msg) : 5 ≤ msg.octets.length ∧ msg.octets.length ≤ 512 := by
  rw [msg.length_octets]
  cases h with
  | ssl => decide
  | startup long params fits =>
    rw [Message.lengthField, List.length_append, paramsOctets, List.length_append] at *
    simp only [Option.toList_none, List.length_nil, List.length_singleton] at *
    omega
  | password string fits =>
    rw [Message.lengthField, List.length_append]
    simp only [Option.toList_some, List.length_singleton]
    omega

/-- Its size is its length. -/
theorem IsRequest.frameSize {msg : Message} (h : IsRequest msg) (rest : List Octet) :
    frameSize (msg.octets ++ rest) = msg.octets.length := by
  obtain ⟨h5, h512⟩ := h.length
  have hfield : msg.lengthField ≤ msg.octets.length := by
    rw [msg.length_octets]
    exact Nat.le_add_left _ _
  exact (frameSize_octets (by rw [List.length_append]; omega) (by omega)).mpr (by omega)

/-- What follows it in a stream. -/
theorem IsRequest.current {msg : Message} (h : IsRequest msg) (rest : List Octet) :
    current (msg.octets ++ rest) = msg.octets := by rw [Wire.current, h.frameSize, List.take_left]

variable {m : Mbuf} {msg : Message}

/-- An untyped message that is in the buffer. -/
theorem head?_untyped (hwin : m.window = msg.octets) (ht : msg.type = none) (hlt : msg.lengthField < 2 ^ 24) :
    m.window.head? = some 0 := by
  rw [hwin, Message.octets, ht]
  refine congrArg some ?_
  rw [Nat.div_eq_of_lt hlt]
  rfl

/-- The first octet of the buffer. -/
theorem buf_of_head? {a : Octet} (h : m.window.head? = some a) : 0 < m.available ∧ m.buf m.start = a := by
  have hav : 0 < m.available := by
    rw [← length_window]
    exact List.length_pos_iff.mpr fun hnil => by rw [hnil] at h; cases h
  exact ⟨hav, Option.some.inj ((head?_window hav).symm.trans h)⟩

/-- `extract_params` does not run out of the buffer, if the message is there as a whole. -/
theorem IsRequest.extractParams (h : IsRequest msg) (hm : m.Wf) (hstart : m.start = 0) (hwin : m.window = msg.octets)
    (type : pgrMbufMsgtype m = MSG_STARTUP) (ctx : Context) (c : Connection) : extractParams ctx c m ≠ none := by
  cases h with
  | ssl =>
    obtain ⟨-, -, -, hsize⟩ := msgtype_untyped hm (by rw [hwin]; rfl) (by rw [type]; decide)
    rw [hwin] at hsize
    exact absurd (hsize type) (by decide)
  | @startup version ps long params fits =>
    have hlt : (⟨none, nofun, version ++ paramsOctets ps⟩ : Message).lengthField < 2 ^ 24 := by
      rw [Message.lengthField, List.length_append]
      omega
    obtain ⟨-, h0⟩ := buf_of_head? (head?_untyped hwin rfl hlt)
    have hav := congrArg List.length hwin
    have hpos : 1 ≤ (paramsOctets ps).length := by simp [paramsOctets]
    rw [length_window, Message.length_octets, Message.lengthField, List.length_append, long] at hav
    have hdata : pgrMbufData m 4 0 = some 8 := by
      rw [pgrMbufData_eq (by decide), h0, if_pos rfl, if_neg (by omega), hstart]
    -- what follows the length and the version
    have hfill : slice m.buf 8 m.fill = paramsOctets ps := by
      have hhead : (be32 (Message.lengthField ⟨none, nofun, version ++ paramsOctets ps⟩) ++ version).length = 8 := by
        rw [List.length_append, long]
        rfl
      rw [show (8 : ℕ) = m.start + 8 by omega, ← drop_slice]
      refine (congrArg (List.drop 8) hwin).trans ?_
      rw [Message.octets, Option.toList_none, List.nil_append, ← List.append_assoc, List.drop_left' hhead]
    have hbuf : slice m.buf 8 m.len = paramsOctets ps ++ slice m.buf m.fill m.len := by
      rw [← hfill, slice_append _ (by unfold Mbuf.available at hav; omega) hm.fill_le]
    rw [Login.extractParams, hdata]
    simp only
    rw [extractLoop_eq ctx params c hbuf]
    exact Option.some_ne_none _
  | password =>
    rcases head?_of_msgtype type (by decide) (by decide) with hhead | hhead
    · rw [hwin] at hhead
      exact absurd (Option.some.inj hhead) (by decide)
    · rw [hwin] at hhead
      exact absurd (Option.some.inj hhead) (by decide)

/-- `check_auth` finds a password, if it is long enough. -/
theorem IsRequest.checkAuth (h : IsRequest msg) (hwin : m.window = msg.octets) (type : pgrMbufMsgtype m = chr 'p')
    {stack : ℕ → Octet} {c : Connection} (hno : checkAuth stack c m = none) :
    msg.type = some 0x70 ∧ msg.octets.length < 40 := by
  have hne := ne_zero_of_msgtype type (by decide)
  have hdata : pgrMbufData m 3 32 = none := by
    unfold Login.checkAuth at hno
    split at hno
    · cases hno
    · split at hno
      · assumption
      · cases hno
  have hlt : m.available < 40 := by
    rw [pgrMbufData_eq (by decide), if_neg hne] at hdata
    by_contra hge
    exact absurd hdata (by rw [if_neg hge]; exact Option.some_ne_none _)
  rw [← length_window, hwin] at hlt
  refine ⟨?_, hlt⟩
  cases h with
  | ssl => exact absurd (buf_of_head? (head?_untyped hwin rfl (by decide))).2 hne
  | startup long params fits =>
    refine absurd (buf_of_head? (head?_untyped hwin rfl ?_)).2 hne
    rw [Message.lengthField, List.length_append]
    omega
  | password => rfl

end PgRouter.Login
