import PgRouter.Login.Parameters
import PgRouter.Wire.Pieces

/-!
# The start-up parameters on their way

A client says in its StartupMessage who it is and what it wants. The parameters of the message
are read into the connection to the client (`extract_params`), copied to the connections to the
two backends (`pgr_conn_copy`), and sent to each of them in a StartupMessage of the router's own
(`startup_message`). This module has the two functions that write, and the theorem that nothing
is lost on the way: what is written is read back, and what is read is written as it was
(`startup_round_trip`).

## The model

`startup_message` appends pieces to a buffer and does not look at the results; where there is no
room for a piece, it is skipped. A list of parameters is a Lean list, so that the `next` pointers
of `pgr_conn_copy` are its structure. The parameters that the target of a copy has had are freed;
where there are none to be copied, the pointer to them stays.
-/

namespace PgRouter.Login

open Foundation Wire

/-! ### Writing the parameters -/

/-- What `startup_message` appends, piece by piece. -/
def startupPieces (c : Connection) : List (List Octet) :=
  let len := c.params.foldl (fun len p => len + (p.name.length + 1 + (p.value.length + 1))) (4 + 4 + 1)
  [be32 len, [0, 3, 0, 0]] ++ c.params.flatMap (fun p => [p.name ++ [0], p.value ++ [0]]) ++ [[0]]

/-- `startup_message`. -/
def startupMessage (m : Mbuf) (c : Connection) : ℤ × Mbuf :=
  (0, (startupPieces c).foldl (fun m d => (pgrMbufCat m d).2) m)

/-- `copy_params`: one parameter. -/
def copyParams (src : Param) : Param where
  name := src.name
  value := src.value

/-- The loop of `pgr_conn_copy`: the parameters of `dst`, which were `old` and are freed. The list `a` is
copied, and the one that begins at `b` is still to be copied. -/
def copyLoop (old : List Param) : List Param → List Param → List Param
  | a, [] => if a = [] then old else a
  | a, b :: next => copyLoop old (a ++ [copyParams b]) next

/-- `pgr_conn_copy`. -/
def pgrConnCopy (dst src : Connection) : ℤ × Connection :=
  (0, { dst with pwhash := src.pwhash, params := copyLoop dst.params [] src.params })

theorem copyLoop_eq (old a b : List Param) : copyLoop old a b = if a ++ b = [] then old else a ++ b := by
  induction b generalizing a with
  | nil => rw [copyLoop, List.append_nil]
  | cons p b ih => rw [copyLoop, ih, List.append_assoc, show copyParams p = p from rfl, List.singleton_append]

/-- A fresh connection gets the parameters of the other one. -/
theorem pgrConnCopy_params (dst src : Connection) (h : dst.params = []) :
    (pgrConnCopy dst src).2.params = src.params := by
  rw [pgrConnCopy, copyLoop_eq, h, List.nil_append]
  split_ifs with hnil
  · exact hnil.symm
  · rfl

/-- The message that `startup_message` writes. -/
def startupOctets (ps : List Param) : List Octet :=
  be32 (8 + (paramsOctets ps).length) ++ ([0, 3, 0, 0] ++ paramsOctets ps)

theorem length_startupOctets (ps : List Param) : (startupOctets ps).length = 8 + (paramsOctets ps).length := by
  rw [startupOctets, List.length_append, List.length_append, ← Nat.add_assoc]
  rfl

/-- The length is computed apart from the message, but it is that of the message. -/
theorem foldl_length (ps : List Param) (n : ℕ) :
    ps.foldl (fun len p => len + (p.name.length + 1 + (p.value.length + 1))) n =
      n + (ps.flatMap paramOctets).length := by
  induction ps generalizing n with
  | nil => rfl
  | cons p ps ih =>
    rw [List.foldl_cons, ih, List.flatMap_cons, List.length_append, paramOctets]
    simp only [List.length_append, List.length_cons, List.length_nil]
    omega

theorem flatten_startupPieces (c : Connection) : (startupPieces c).flatten = startupOctets c.params := by
  have hparams : (c.params.flatMap fun p => [p.name ++ [0], p.value ++ [0]]).flatten =
      c.params.flatMap paramOctets := by
    rw [← List.flatMap_id, List.flatMap_assoc]
    refine List.flatMap_congr fun p _ => ?_
    simp [paramOctets]
  have hlen : 8 + (paramsOctets c.params).length = 4 + 4 + 1 + (c.params.flatMap paramOctets).length := by
    rw [paramsOctets, List.length_append, List.length_singleton]
    omega
  rw [startupPieces, foldl_length, startupOctets, hlen, List.flatten_append, List.flatten_append, hparams]
  simp [paramsOctets]

theorem startupMessage_eq (m : Mbuf) (c : Connection) : startupMessage m c = (0, appendAll m (startupPieces c)) := rfl

/-- Where there is room for it, the message is appended. -/
theorem startupMessage_put {m : Mbuf} {c : Connection} (hroom : (startupOctets c.params).length ≤ m.len - m.fill) :
    startupMessage m c = (0, m.put (startupOctets c.params)) := by
  rw [← flatten_startupPieces] at hroom ⊢
  rw [startupMessage_eq, appendAll_eq_put hroom]

/-- **`startup_message`** writes the message, if it fits. -/
theorem startupMessage_window (c : Connection) (hfits : (startupOctets c.params).length ≤ 512) :
    (startupMessage (pgrMbufNew 512) c).2.window = startupOctets c.params := by
  have hwf : (pgrMbufNew 512).Wf := ⟨le_rfl, Nat.zero_le _⟩
  rw [startupMessage_put hfits, window_put hwf]
  rfl

/-! ### Reading them -/

theorem setParam_params (ctx : Context) (c : Connection) (name value : CString) :
    (setParam ctx c name value).params = c.params ++ [⟨name, value⟩] := by
  unfold setParam
  simp only
  split_ifs <;> rfl

/-- Parameters whose values are not empty are appended to those of the connection. -/
theorem extractAll_eq (ctx : Context) (c : Connection) {ps : List Param} (hps : ∀ p ∈ ps, p.value ≠ []) :
    ∃ c', extractAll ctx c ps = (0, c') ∧ c'.params = c.params ++ ps := by
  induction ps generalizing c with
  | nil => exact ⟨c, rfl, (List.append_nil _).symm⟩
  | cons p ps ih =>
    obtain ⟨hp, hps⟩ := List.forall_mem_cons.mp hps
    obtain ⟨c', he, hparams⟩ := ih (setParam ctx c p.name p.value) hps
    refine ⟨c', by rw [extractAll, if_neg hp, he], ?_⟩
    rw [hparams, setParam_params, List.append_assoc]
    rfl

/-- **`extract_params`** reads a StartupMessage that is in the buffer as a whole. -/
theorem extractParams_startupOctets (ctx : Context) (c : Connection) {m : Mbuf} (h : m.Wf) {ps : List Param}
    (hps : ∀ p ∈ ps, IsParam p) (hvalues : ∀ p ∈ ps, p.value ≠ []) (hfits : (startupOctets ps).length ≤ 512)
    (hwin : startupOctets ps <+: m.window) :
    ∃ c', extractParams ctx c m = some (0, c') ∧ c'.params = c.params ++ ps := by
  obtain ⟨rest, hrest⟩ := hwin
  have hlen := length_startupOctets ps
  have hav := congrArg List.length hrest
  rw [List.length_append, length_window] at hav
  -- the first octet of the length is 0
  have hhead : m.window.head? = some 0 := by
    rw [← hrest, startupOctets, Nat.add_comm 8, be32, Nat.div_eq_of_lt (by omega)]
    rfl
  obtain ⟨-, h0⟩ := buf_of_head? hhead
  have hdata : pgrMbufData m 4 0 = some (m.start + 8) := by
    rw [pgrMbufData_eq (by decide), h0, if_pos rfl, if_neg (by omega)]
  have hfill : slice m.buf (m.start + 8) m.fill = paramsOctets ps ++ rest := by
    rw [← drop_slice]
    refine (congrArg (List.drop 8) hrest).symm.trans ?_
    rw [startupOctets, List.append_assoc, List.append_assoc]
    rfl
  have hbuf : slice m.buf (m.start + 8) m.len = paramsOctets ps ++ (rest ++ slice m.buf m.fill m.len) := by
    rw [← List.append_assoc, ← hfill, slice_append _ (by unfold Mbuf.available at hav; omega) h.fill_le]
  obtain ⟨c', he, hparams⟩ := extractAll_eq ctx c hvalues
  refine ⟨c', ?_, hparams⟩
  rw [extractParams, hdata]
  simp only
  rw [extractLoop_eq ctx hps c hbuf, he]

/-! ### The round trip -/

/-- `d` is a StartupMessage of protocol 3.0: its length, the version, pairs of a name and a value,
neither of which is empty, and one NUL. -/
def IsStartup (d : List Octet) : Prop :=
  ∃ ps : List Param, (∀ p ∈ ps, IsParam p ∧ p.value ≠ []) ∧ d = be32 d.length ++ ([0, 3, 0, 0] ++ paramsOctets ps)

/-- Such a message is what `startup_message` writes for its parameters. -/
theorem IsStartup.eq {d : List Octet} (h : IsStartup d) :
    ∃ ps : List Param, (∀ p ∈ ps, IsParam p ∧ p.value ≠ []) ∧ d = startupOctets ps := by
  obtain ⟨ps, hps, hd⟩ := h
  have hlen := congrArg List.length hd
  rw [List.length_append, List.length_append, ← Nat.add_assoc] at hlen
  refine ⟨ps, hps, ?_⟩
  rw [startupOctets, ← show d.length = 8 + (paramsOctets ps).length from hlen]
  exact hd

/-- **The start-up parameters survive the proxy.** What `startup_message` has written, if it
fits, `extract_params` reads, and appends to the parameters of any connection. And a StartupMessage
that `extract_params` has read for a fresh connection is written by `startup_message`, octet for octet,
for another fresh connection to which `pgr_conn_copy` has copied the parameters. -/
theorem startup_round_trip (ctx : Context) :
    (∀ (src dst : Connection) (m : Mbuf), src.params ≠ [] → (∀ p ∈ src.params, IsParam p ∧ p.value ≠ []) →
      (startupPieces src).flatten.length ≤ 512 → m.Wf →
      (startupMessage (pgrMbufNew 512) src).2.window <+: m.window →
        ∃ c, extractParams ctx dst m = some (0, c) ∧ c.params = dst.params ++ src.params) ∧
    (∀ (salt salt' : Vector Octet 4) (fd : Fd) (d : List Octet) (m : Mbuf), IsStartup d → d.length ≤ 512 → m.Wf →
      d <+: m.window →
        ∃ c, extractParams ctx (pgrConnFrontend (pgrConnInit salt) fd) m = some (0, c) ∧
          (pgrConnCopy (pgrConnInit salt') c).1 = 0 ∧
          (startupMessage (pgrMbufNew 512) (pgrConnCopy (pgrConnInit salt') c).2).1 = 0 ∧
          (startupMessage (pgrMbufNew 512) (pgrConnCopy (pgrConnInit salt') c).2).2.window = d) := by
  constructor
  · intro src dst m _ hps hfits hm hwin
    rw [flatten_startupPieces] at hfits
    rw [startupMessage_window src hfits] at hwin
    exact extractParams_startupOctets ctx dst hm (fun p hp => (hps p hp).1) (fun p hp => (hps p hp).2) hfits hwin
  · intro salt salt' fd d m hd hfits hm hwin
    obtain ⟨ps, hps, rfl⟩ := hd.eq
    obtain ⟨c, he, hparams⟩ := extractParams_startupOctets ctx (pgrConnFrontend (pgrConnInit salt) fd) hm
      (fun p hp => (hps p hp).1) (fun p hp => (hps p hp).2) hfits hwin
    have hcopy : (pgrConnCopy (pgrConnInit salt') c).2.params = ps :=
      (pgrConnCopy_params (pgrConnInit salt') c rfl).trans hparams
    refine ⟨c, he, rfl, rfl, ?_⟩
    rw [startupMessage_window _ (by rwa [hcopy]), hcopy]

/-- The StartupMessage of `bob`, from one connection to another and on. -/
theorem startup_round_trip_bob :
    let salt : Vector Octet 4 := ⟨#[1, 2, 3, 4], rfl⟩
    let src := { pgrConnInit salt with params := [⟨USER, [0x62, 0x6f, 0x62]⟩] }
    let m := (startupMessage (pgrMbufNew 512) src).2
    (∃ c, extractParams Context.zero (pgrConnInit salt) m = some (0, c) ∧ c.params = src.params) ∧
      ∃ c, extractParams Context.zero (pgrConnFrontend (pgrConnInit salt) 3) m = some (0, c) ∧
        (startupMessage (pgrMbufNew 512) (pgrConnCopy (pgrConnInit salt) c).2).2.window = m.window := by
  intro salt src m
  have hps : ∀ p ∈ src.params, IsParam p ∧ p.value ≠ [] := fun p hp => by
    rw [List.mem_singleton.mp hp]
    exact ⟨⟨by decide, by decide, by decide⟩, by decide⟩
  have hm : m.Wf := ⟨by decide, by decide⟩
  obtain ⟨hread, hwrite⟩ := startup_round_trip Context.zero
  refine ⟨hread src (pgrConnInit salt) m (by decide) hps (by decide) hm List.prefix_rfl, ?_⟩
  obtain ⟨c, he, -, -, hwin⟩ :=
    hwrite salt salt 3 m.window m ⟨src.params, hps, by decide⟩ (by decide) hm List.prefix_rfl
  exact ⟨c, he, hwin⟩

end PgRouter.Login
