import PgRouter.Foundation.Inspection
import PgRouter.Foundation.Numeral
import PgRouter.Wire.Framing

/-!
# The octet accessors

`pgr_mbuf_data` finds the octets at an offset of the payload, behind a header of four octets or of
five; `pgr_mbuf_u16` and `pgr_mbuf_u32` decode them, `pgr_mbuf_msgtype` looks at the header, and
`pgr_mbuf_iserror` goes through the fields of an ErrorResponse.

## The model

Each of these functions is translated a second time, in the namespace `Inspected`, as a program that
has `start` and `fill` and can only look at the octets of the buffer, one by one. Where `&&` is
short-circuit, the program does not look at what C does not evaluate. Run on the octets of a buffer it is
the function of `Mbuf` (`eval_pgrMbufMsgtype` and so on).

## What is proved

* `looksOnlyAt_pgrMbufMsgtype`, `looksOnlyAt_pgrMbufIserror` — these look only at octets that are available.
* `accessed_iff` — the other three are meant to do so as well, and to decode the octets of the payload that
  are there, and they do just under a condition. `pgr_mbuf_data` looks at the first octet even if there is
  none, as its test for that never holds; `pgr_mbuf_u32` asks it for two octets and decodes four, and the macro
  `u32` drops the first of them; and for offsets near the greatest number of the type `size_t` the sums of
  `pgr_mbuf_data` wrap around.
-/

namespace PgRouter.Wire

open Foundation

/-- The addresses of the octets that `available` counts. -/
def Mbuf.addresses (m : Mbuf) : Set ℕ := Set.Ico m.start m.fill

theorem mem_addresses {m : Mbuf} {i : ℕ} : i ∈ m.addresses ↔ m.start ≤ i ∧ i < m.fill := Iff.rfl

/-! ### The functions, looking at one octet after the other -/

namespace Inspected

open Inspect

/-- A program that looks at the octets of a buffer. -/
abbrev Looks := Inspect ℕ Octet

/-- The macro `u16`, at address `i`. -/
def u16 (i : ℕ) : Looks ℕ := do
  let a ← cell i
  let b ← cell (i + 1)
  return (a.toNat <<< 8) % 2 ^ 16 ||| b.toNat

/-- The macro `u32`, at address `i`. -/
def u32 (i : ℕ) : Looks ℕ := do
  let a ← cell i
  let b ← cell (i + 1)
  let c ← cell (i + 2)
  let d ← cell (i + 3)
  return (a.toNat <<< 24) % 2 ^ 16 ||| b.toNat <<< 16 ||| c.toNat <<< 8 ||| d.toNat

/-- `pgr_mbuf_msglength`. -/
def pgrMbufMsglength (start fill : ℕ) : Looks ℕ :=
  if fill - start < 5 then return 0
  else do
    let c ← cell start
    if c = 0 then
      let n ← u32 start
      return (n + 2 ^ 32 - 4) % 2 ^ 32
    else
      let n ← u32 (start + 1)
      return (n + 2 ^ 32 - 4) % 2 ^ 32

/-- The condition for `MSG_SSLREQ`. -/
def isSslreq (start fill len : ℕ) : Looks Bool :=
  if len = 4 ∧ 8 ≤ fill - start then do
    let hi ← u16 (start + 4)
    if hi = 1234 then
      let lo ← u16 (start + 6)
      return lo = 5679
    else return false
  else return false

/-- `pgr_mbuf_msgtype`. -/
def pgrMbufMsgtype (start fill : ℕ) : Looks ℤ :=
  if fill - start = 0 then return -1
  else do
    let c ← cell start
    if c = 0 then
      let len ← pgrMbufMsglength start fill
      let sslreq ← isSslreq start fill len
      return if sslreq then MSG_SSLREQ else if len = 12 then MSG_CANCEL else if 5 ≤ len then MSG_STARTUP else -1
    else
      let c ← cell start
      return c.toInt8.toInt

/-- `pgr_mbuf_data`. -/
def pgrMbufData (start fill at' len : ℕ) : Looks (Option ℕ) := do
  let c ← cell start
  let at' := (at' + ((if c = 0 then 0 else 1) + 4)) % 2 ^ 64
  return if fill - start < (at' + len) % 2 ^ 64 then none else some (start + at')

/-- What `pgr_mbuf_u16` and `pgr_mbuf_u32` do with the address that `pgr_mbuf_data` returns. -/
def decoded (decode : ℕ → Looks ℕ) : Option ℕ → Looks ℤ
  | none => return -1
  | some x => do
    let n ← decode x
    return (n : ℤ)

/-- `pgr_mbuf_u16`. -/
def pgrMbufU16 (start fill at' : ℕ) : Looks ℤ := do
  let x ← pgrMbufData start fill at' 2
  decoded u16 x

/-- `pgr_mbuf_u32`. -/
def pgrMbufU32 (start fill at' : ℕ) : Looks ℤ := do
  let x ← pgrMbufData start fill at' 2
  decoded u32 x

/-- The inner loop of `pgr_mbuf_iserror`, which does not go back. -/
def skipField (fill n : ℕ) : Looks {n' // n ≤ n'} :=
  if n < fill then do
    let c ← cell n
    if c ≠ 0 then
      let n' ← skipField fill (n + 1)
      return ⟨n'.1, (Nat.le_succ n).trans n'.2⟩
    else return ⟨n, le_rfl⟩
  else return ⟨n, le_rfl⟩
termination_by fill - n

/-- The outer loop of `pgr_mbuf_iserror`. -/
def scanFields (fill : ℕ) (code : List Octet) (n : ℕ) : Looks ℤ :=
  if n < fill then do
    let c ← cell n
    if c = 0 then return 1
    else
      let c ← cell n
      if c.toNat = 'C'.toNat ∧ n + 6 < fill then
        let field ← cells (n + 1) 5
        return memcmp field code
      else
        let n' ← skipField fill (n + 1)
        scanFields fill code (n'.1 + 1)
  else return 1
termination_by fill - n
decreasing_by have := n'.2; omega

/-- `pgr_mbuf_iserror`. -/
def pgrMbufIserror (start fill : ℕ) (code : Option (List Octet)) : Looks ℤ := do
  let type ← pgrMbufMsgtype start fill
  if type ≠ chr 'E' then return 1
  else match code with
    | none => return 0
    | some code => scanFields fill code (start + 5)

/-! ### On a buffer -/

@[simp] theorem eval_u16 (b : ℕ → Octet) (i : ℕ) : (u16 i).eval b = Wire.u16 b i := by
  rw [u16, eval_cell_bind, eval_cell_bind, pure_eq, eval_done, Wire.u16]

@[simp] theorem eval_u32 (b : ℕ → Octet) (i : ℕ) : (u32 i).eval b = Wire.u32 b i := by
  rw [u32, eval_cell_bind, eval_cell_bind, eval_cell_bind, eval_cell_bind, pure_eq, eval_done, Wire.u32]

@[simp] theorem eval_pgrMbufMsglength (m : Mbuf) :
    (pgrMbufMsglength m.start m.fill).eval m.buf = Wire.pgrMbufMsglength m := by
  rw [pgrMbufMsglength, eval_ite, eval_cell_bind, eval_ite, bind_eq, eval_bind, eval_u32, bind_eq,
    eval_bind, eval_u32, pure_eq, eval_done, pure_eq, eval_done, pure_eq, eval_done, Wire.pgrMbufMsglength,
    Mbuf.available]

theorem eval_isSslreq (m : Mbuf) (len : ℕ) :
    (isSslreq m.start m.fill len).eval m.buf = decide (len = 4 ∧ 8 ≤ m.available ∧
      Wire.u16 m.buf (m.start + 4) = 1234 ∧ Wire.u16 m.buf (m.start + 6) = 5679) := by
  rw [isSslreq, eval_ite, bind_eq, eval_bind, eval_u16, eval_ite, bind_eq, eval_bind, eval_u16]
  simp only [← and_assoc, Mbuf.available, pure_eq, eval_done]
  by_cases hlen : len = 4 ∧ 8 ≤ m.fill - m.start
  · by_cases hhi : Wire.u16 m.buf (m.start + 4) = 1234
    · simp [hlen, hhi]
    · simp [hlen, hhi]
  · simp [hlen]

@[simp] theorem eval_pgrMbufMsgtype (m : Mbuf) :
    (pgrMbufMsgtype m.start m.fill).eval m.buf = Wire.pgrMbufMsgtype m := by
  rw [pgrMbufMsgtype, Wire.pgrMbufMsgtype, eval_ite, eval_cell_bind, eval_ite, bind_eq, eval_bind,
    eval_pgrMbufMsglength, bind_eq, eval_bind, eval_isSslreq, pure_eq, eval_done, pure_eq, eval_done,
    if_congr decide_eq_true_iff rfl rfl]
  rfl

@[simp] theorem eval_pgrMbufData (m : Mbuf) (at' len : ℕ) :
    (pgrMbufData m.start m.fill at' len).eval m.buf = Wire.pgrMbufData m at' len := rfl

theorem eval_pgrMbufU16 (m : Mbuf) (at' : ℕ) :
    (pgrMbufU16 m.start m.fill at').eval m.buf = Wire.pgrMbufU16 m at' := by
  rw [pgrMbufU16, bind_eq, eval_bind, eval_pgrMbufData, Wire.pgrMbufU16]
  cases Wire.pgrMbufData m at' 2 with
  | none => rfl
  | some x => rfl

theorem eval_pgrMbufU32 (m : Mbuf) (at' : ℕ) :
    (pgrMbufU32 m.start m.fill at').eval m.buf = Wire.pgrMbufU32 m at' := by
  rw [pgrMbufU32, bind_eq, eval_bind, eval_pgrMbufData, Wire.pgrMbufU32]
  cases Wire.pgrMbufData m at' 2 with
  | none => rfl
  | some x => rfl

@[simp] theorem eval_skipField (m : Mbuf) (n : ℕ) : ((skipField m.fill n).eval m.buf).1 = Wire.skipField m n := by
  fun_induction Wire.skipField m n with
  | case1 n h ih =>
    rw [skipField, if_pos h.1, eval_cell_bind, if_pos h.2, bind_eq, eval_bind]
    exact ih
  | case2 n h =>
    by_cases hlt : n < m.fill
    · have h0 : ¬ m.buf n ≠ 0 := fun hne => h ⟨hlt, hne⟩
      rw [skipField, if_pos hlt, eval_cell_bind, if_neg h0]
      rfl
    · rw [skipField, if_neg hlt]
      rfl

theorem eval_scanFields (m : Mbuf) (code : List Octet) (n : ℕ) :
    (scanFields m.fill code n).eval m.buf = Wire.scanFields m code n := by
  fun_induction Wire.scanFields m code n with
  | case1 n h h0 =>
    rw [scanFields, if_pos h, eval_cell_bind, if_pos h0]
    rfl
  | case2 n h h0 hc =>
    rw [scanFields, if_pos h, eval_cell_bind, if_neg h0, eval_cell_bind, if_pos hc,
      bind_eq, eval_bind, eval_cells]
    rfl
  | case3 n h h0 hc ih =>
    rw [scanFields, if_pos h, eval_cell_bind, if_neg h0, eval_cell_bind, if_neg hc,
      bind_eq, eval_bind, eval_skipField]
    exact ih
  | case4 n h =>
    rw [scanFields, if_neg h]
    rfl

theorem eval_pgrMbufIserror (m : Mbuf) (code : Option (List Octet)) :
    (pgrMbufIserror m.start m.fill code).eval m.buf = Wire.pgrMbufIserror m code := by
  unfold pgrMbufIserror Wire.pgrMbufIserror
  rw [bind_eq, eval_bind, eval_pgrMbufMsgtype, eval_ite]
  cases code with
  | none => rfl
  | some code => rw [eval_scanFields]; rfl

/-! ### The octets that are examined -/

theorem looksOnlyAt_u16 {b : ℕ → Octet} {s : Set ℕ} {i : ℕ} (h : ∀ j < 2, i + j ∈ s) : (u16 i).LooksOnlyAt b s := by
  refine looksOnlyAt_cell_bind.mpr ⟨h 0 (by omega), looksOnlyAt_cell_bind.mpr ⟨h 1 (by omega), ?_⟩⟩
  exact looksOnlyAt_done _

theorem looksOnlyAt_u32 {b : ℕ → Octet} {s : Set ℕ} {i : ℕ} (h : ∀ j < 4, i + j ∈ s) : (u32 i).LooksOnlyAt b s := by
  refine looksOnlyAt_cell_bind.mpr ⟨h 0 (by omega), looksOnlyAt_cell_bind.mpr ⟨h 1 (by omega), ?_⟩⟩
  refine looksOnlyAt_cell_bind.mpr ⟨h 2 (by omega), looksOnlyAt_cell_bind.mpr ⟨h 3 (by omega), ?_⟩⟩
  exact looksOnlyAt_done _

theorem looksOnlyAt_pgrMbufMsglength (m : Mbuf) :
    (pgrMbufMsglength m.start m.fill).LooksOnlyAt m.buf m.addresses := by
  unfold pgrMbufMsglength
  split_ifs with hav
  · exact looksOnlyAt_done _
  · refine looksOnlyAt_cell_bind.mpr ⟨mem_addresses.mpr (by omega), ?_⟩
    split_ifs
    · exact looksOnlyAt_bind_done.mpr (looksOnlyAt_u32 fun j hj => mem_addresses.mpr (by omega))
    · exact looksOnlyAt_bind_done.mpr (looksOnlyAt_u32 fun j hj => mem_addresses.mpr (by omega))

theorem looksOnlyAt_isSslreq (m : Mbuf) (len : ℕ) :
    (isSslreq m.start m.fill len).LooksOnlyAt m.buf m.addresses := by
  unfold isSslreq
  split_ifs with hlen
  · refine looksOnlyAt_bind.mpr ⟨looksOnlyAt_u16 fun j hj => mem_addresses.mpr (by omega), ?_⟩
    split_ifs
    · exact looksOnlyAt_bind_done.mpr (looksOnlyAt_u16 fun j hj => mem_addresses.mpr (by omega))
    · exact looksOnlyAt_done _
  · exact looksOnlyAt_done _

/-- `pgr_mbuf_msgtype` looks only at what is available. -/
theorem looksOnlyAt_pgrMbufMsgtype (m : Mbuf) :
    (pgrMbufMsgtype m.start m.fill).LooksOnlyAt m.buf m.addresses := by
  unfold pgrMbufMsgtype
  split_ifs with hav
  · exact looksOnlyAt_done _
  · have hstart : m.start ∈ m.addresses := mem_addresses.mpr (by omega)
    refine looksOnlyAt_cell_bind.mpr ⟨hstart, ?_⟩
    split_ifs
    · exact looksOnlyAt_bind.mpr ⟨looksOnlyAt_pgrMbufMsglength m, looksOnlyAt_bind_done.mpr (looksOnlyAt_isSslreq m _)⟩
    · exact looksOnlyAt_cell_bind.mpr ⟨hstart, looksOnlyAt_done _⟩

/-- `pgr_mbuf_data` looks at the first octet, whether there is one or not. -/
theorem looksOnlyAt_pgrMbufData {m : Mbuf} {at' len : ℕ} :
    (pgrMbufData m.start m.fill at' len).LooksOnlyAt m.buf m.addresses ↔ m.start < m.fill := by
  rw [pgrMbufData, bind_eq, looksOnlyAt_cell_bind, mem_addresses, and_iff_right le_rfl]
  exact and_iff_left (looksOnlyAt_done _)

theorem looksOnlyAt_skipField {m : Mbuf} {n : ℕ} (h : m.start ≤ n) :
    (skipField m.fill n).LooksOnlyAt m.buf m.addresses := by
  fun_induction Wire.skipField m n with
  | case1 n hn ih =>
    rw [skipField, if_pos hn.1]
    refine looksOnlyAt_cell_bind.mpr ⟨mem_addresses.mpr ⟨h, hn.1⟩, ?_⟩
    rw [if_pos hn.2]
    exact looksOnlyAt_bind_done.mpr (ih (by omega))
  | case2 n hn =>
    rw [skipField]
    split_ifs with hlt
    · refine looksOnlyAt_cell_bind.mpr ⟨mem_addresses.mpr ⟨h, hlt⟩, ?_⟩
      rw [if_neg fun hne => hn ⟨hlt, hne⟩]
      exact looksOnlyAt_done _
    · exact looksOnlyAt_done _

/-- The rounds of the outer loop stay below `fill`, and never go back. -/
theorem looksOnlyAt_scanFields (m : Mbuf) (code : List Octet) {n : ℕ} (h : m.start ≤ n) :
    (scanFields m.fill code n).LooksOnlyAt m.buf m.addresses := by
  fun_induction Wire.scanFields m code n with
  | case1 n hn h0 =>
    rw [scanFields, if_pos hn]
    refine looksOnlyAt_cell_bind.mpr ⟨mem_addresses.mpr ⟨h, hn⟩, ?_⟩
    rw [if_pos h0]
    exact looksOnlyAt_done _
  | case2 n hn h0 hc =>
    have hmem : n ∈ m.addresses := mem_addresses.mpr ⟨h, hn⟩
    rw [scanFields, if_pos hn]
    refine looksOnlyAt_cell_bind.mpr ⟨hmem, ?_⟩
    rw [if_neg h0]
    refine looksOnlyAt_cell_bind.mpr ⟨hmem, ?_⟩
    rw [if_pos hc]
    -- the five octets of the code, and one more, are available
    refine looksOnlyAt_bind_done.mpr (looksOnlyAt_cells fun j hj hlt => ?_)
    exact mem_addresses.mpr ⟨by omega, by omega⟩
  | case3 n hn h0 hc ih =>
    have hmem : n ∈ m.addresses := mem_addresses.mpr ⟨h, hn⟩
    have hskip := le_skipField m (n + 1)
    rw [scanFields, if_pos hn]
    refine looksOnlyAt_cell_bind.mpr ⟨hmem, ?_⟩
    rw [if_neg h0]
    refine looksOnlyAt_cell_bind.mpr ⟨hmem, ?_⟩
    rw [if_neg hc]
    refine looksOnlyAt_bind.mpr ⟨looksOnlyAt_skipField (by omega), ?_⟩
    rw [eval_skipField]
    exact ih (by omega)
  | case4 n hn =>
    rw [scanFields, if_neg hn]
    exact looksOnlyAt_done _

/-- `pgr_mbuf_iserror` looks only at what is available. -/
theorem looksOnlyAt_pgrMbufIserror (m : Mbuf) (code : Option (List Octet)) :
    (pgrMbufIserror m.start m.fill code).LooksOnlyAt m.buf m.addresses := by
  refine looksOnlyAt_bind.mpr ⟨looksOnlyAt_pgrMbufMsgtype m, ?_⟩
  split_ifs
  · exact looksOnlyAt_done _
  · cases code with
    | none => exact looksOnlyAt_done _
    | some code => exact looksOnlyAt_scanFields m code (Nat.le_add_right _ _)

end Inspected

/-! ### What the accessors are meant to do -/

/-- The payload in what is available of a message: what follows the header. It is of four octets if the first
of them is `0`, and else of five, the first being the type. -/
def payloadOf (w : List Octet) : List Octet := w.drop (if w.head? = some 0 then 4 else 5)

/-- The number that the first `n` octets denote, most significant first, or `-1` if there are fewer. -/
def bigEndian (n : ℕ) (d : List Octet) : ℤ :=
  if d.length < n then -1 else numeral 256 ((d.take n).map UInt8.toNat)

/-- A program, on a buffer, looks only at what is available, and its result is `v`. -/
structure Reads {α : Type} (p : Inspected.Looks α) (m : Mbuf) (v : α) : Prop where
  /-- The result. -/
  result : p.eval m.buf = v
  /-- The octets at which it looks. -/
  looks : p.LooksOnlyAt m.buf m.addresses

/-- The accessors are safe and right, at an offset of the payload. -/
structure Accessed (m : Mbuf) (at' : ℕ) : Prop where
  /-- `pgr_mbuf_data`. -/
  data : ∀ len, Reads (Inspected.pgrMbufData m.start m.fill at' len) m (pgrMbufData m at' len)
  /-- `pgr_mbuf_u16` decodes two octets of the payload. -/
  u16 : Reads (Inspected.pgrMbufU16 m.start m.fill at') m (bigEndian 2 ((payloadOf m.window).drop at'))
  /-- `pgr_mbuf_u32` decodes four octets of the payload. -/
  u32 : Reads (Inspected.pgrMbufU32 m.start m.fill at') m (bigEndian 4 ((payloadOf m.window).drop at'))
  /-- `pgr_mbuf_msgtype`. -/
  msgtype : Reads (Inspected.pgrMbufMsgtype m.start m.fill) m (pgrMbufMsgtype m)
  /-- `pgr_mbuf_iserror`. -/
  iserror : ∀ code, Reads (Inspected.pgrMbufIserror m.start m.fill code) m (pgrMbufIserror m code)

/-! ### What they do -/

/-- The length of the header of the message in a buffer. -/
def headerLength (m : Mbuf) : ℕ := if m.buf m.start = 0 then 4 else 5

/-- The octets of the payload at an offset. -/
theorem drop_payloadOf_window (m : Mbuf) (at' : ℕ) :
    (payloadOf m.window).drop at' = slice m.buf (m.start + (at' + headerLength m)) m.fill := by
  rw [payloadOf, headerLength, Mbuf.window, List.drop_drop, drop_slice]
  by_cases h : m.start < m.fill
  · rw [slice_cons m.buf h, List.head?_cons, Nat.add_comm at']
    simp only [Option.some.injEq]
  · rw [slice_eq_nil m.buf (by omega), slice_eq_nil m.buf (by omega)]

theorem bigEndian_two (b : ℕ → Octet) (i j : ℕ) :
    bigEndian 2 (slice b i j) = if j < i + 2 then -1 else (u16 b i : ℤ) := by
  rw [bigEndian, length_slice, take_slice]
  split_ifs with h1 h2 h2
  · rfl
  · omega
  · omega
  · have hslice : slice b i (min j (i + 2)) = [b i, b (i + 1)] := by
      rw [Nat.min_eq_right (by omega), slice_cons b (by omega), slice_cons b (by omega), slice_eq_nil b (by omega)]
    rw [hslice, u16_eq]
    simp [numeral]

theorem bigEndian_four (b : ℕ → Octet) (i j : ℕ) :
    bigEndian 4 (slice b i j) = if j < i + 4 then -1 else ((b i).toNat * 2 ^ 24 + u32 b i : ℤ) := by
  rw [bigEndian, length_slice, take_slice]
  split_ifs with h1 h2 h2
  · rfl
  · omega
  · omega
  · have hslice : slice b i (min j (i + 4)) = [b i, b (i + 1), b (i + 2), b (i + 3)] := by
      rw [Nat.min_eq_right (by omega), slice_cons b (by omega), slice_cons b (by omega), slice_cons b (by omega),
        slice_cons b (by omega), slice_eq_nil b (by omega)]
    rw [hslice, u32_eq, be24]
    simp [numeral]
    omega

/-- `pgr_mbuf_data`, in terms of the header. -/
theorem pgrMbufData_header (m : Mbuf) (at' len : ℕ) :
    pgrMbufData m at' len = if m.available < (at' + headerLength m + len) % 2 ^ 64 then none
      else some (m.start + (at' + headerLength m) % 2 ^ 64) := by
  have hheader : (if m.buf m.start = 0 then 0 else 1) + 4 = headerLength m := by
    unfold headerLength
    split_ifs <;> rfl
  rw [pgrMbufData, hheader, Nat.mod_add_mod]

theorem pgrMbufU16_eq (m : Mbuf) (at' : ℕ) :
    pgrMbufU16 m at' = if m.available < (at' + headerLength m + 2) % 2 ^ 64 then -1
      else (u16 m.buf (m.start + (at' + headerLength m) % 2 ^ 64) : ℤ) := by
  rw [pgrMbufU16, pgrMbufData_header]
  split_ifs <;> rfl

theorem pgrMbufU32_eq (m : Mbuf) (at' : ℕ) :
    pgrMbufU32 m at' = if m.available < (at' + headerLength m + 2) % 2 ^ 64 then -1
      else (u32 m.buf (m.start + (at' + headerLength m) % 2 ^ 64) : ℤ) := by
  rw [pgrMbufU32, pgrMbufData_header]
  split_ifs <;> rfl

/-- A buffer is no longer than a number of the type `size_t` can say. -/
theorem available_lt {m : Mbuf} (h : m.Wf) (hlen : m.len < 2 ^ 64) : m.available < 2 ^ 64 :=
  ((Nat.sub_le _ _).trans h.fill_le).trans_lt hlen

/-- Two octets are decoded if they are there, and for `-1` the sum must not have wrapped around. -/
theorem pgrMbufU16_right {m : Mbuf} (h : m.Wf) (hlen : m.len < 2 ^ 64) {at' : ℕ}
    (hcond : m.available < (at' + headerLength m + 2) % 2 ^ 64 ∨ at' + headerLength m + 2 ≤ m.available) :
    pgrMbufU16 m at' = bigEndian 2 ((payloadOf m.window).drop at') := by
  have hav := available_lt h hlen
  have hstart := h.start_le
  rw [pgrMbufU16_eq, drop_payloadOf_window, bigEndian_two]
  unfold Mbuf.available at *
  rcases hcond with hcond | hcond
  · have hle := Nat.mod_le (at' + headerLength m + 2) (2 ^ 64)
    rw [if_pos hcond, if_pos (by omega)]
  · rw [Nat.mod_eq_of_lt (by omega), Nat.mod_eq_of_lt (by omega), if_neg (by omega), if_neg (by omega)]

/-- **Four octets** are decoded if they are there and the first is `0`, and `-1` is returned if two are not. -/
theorem pgrMbufU32_iff {m : Mbuf} (h : m.Wf) (hlen : m.len < 2 ^ 64) (at' : ℕ) :
    pgrMbufU32 m at' = bigEndian 4 ((payloadOf m.window).drop at') ↔
      m.available < (at' + headerLength m + 2) % 2 ^ 64 ∨
        at' + headerLength m + 4 ≤ m.available ∧ m.buf (m.start + (at' + headerLength m)) = 0 := by
  have hav := available_lt h hlen
  have hstart := h.start_le
  rw [pgrMbufU32_eq, drop_payloadOf_window, bigEndian_four, ← UInt8.toNat_inj]
  unfold Mbuf.available at *
  by_cases hchecked : m.fill - m.start < (at' + headerLength m + 2) % 2 ^ 64
  · have hle := Nat.mod_le (at' + headerLength m + 2) (2 ^ 64)
    rw [if_pos hchecked, if_pos (by omega)]
    exact iff_of_true rfl (.inl hchecked)
  · rw [if_neg hchecked, or_iff_right hchecked]
    by_cases hshort : m.fill < m.start + (at' + headerLength m) + 4
    · -- fewer than four octets are there, and a number is returned nevertheless
      rw [if_pos hshort]
      exact iff_of_false (by omega) (by omega)
    · rw [if_neg hshort, Nat.mod_eq_of_lt (by omega : at' + headerLength m < 2 ^ 64),
        and_iff_right (by omega : at' + headerLength m + 4 ≤ m.fill - m.start)]
      change _ ↔ _ = 0
      omega

/-- The octets that are decoded, `n` of them, are available, if the test of `pgr_mbuf_data` means that. -/
theorem looksOnlyAt_decoded {m : Mbuf} (h : m.Wf) (hlen : m.len < 2 ^ 64) {at' n : ℕ} {decode : ℕ → Inspected.Looks ℕ}
    (hdecode : ∀ {x}, (∀ j < n, x + j ∈ m.addresses) → (decode x).LooksOnlyAt m.buf m.addresses)
    (hcond : m.available < (at' + headerLength m + 2) % 2 ^ 64 ∨ at' + headerLength m + n ≤ m.available)
    (hn : 0 < n) : (Inspected.decoded decode (pgrMbufData m at' 2)).LooksOnlyAt m.buf m.addresses := by
  have hav := available_lt h hlen
  rw [pgrMbufData_header]
  split_ifs with hchecked
  · exact Inspect.looksOnlyAt_done _
  · have hfit := hcond.resolve_left hchecked
    refine Inspect.looksOnlyAt_bind_done.mpr (hdecode fun j hj => ?_)
    rw [Nat.mod_eq_of_lt (by omega), mem_addresses]
    unfold Mbuf.available at *
    omega

theorem pgrMbufU16_looks {m : Mbuf} (h : m.Wf) (hlen : m.len < 2 ^ 64) {at' : ℕ} (hne : m.start < m.fill)
    (hcond : m.available < (at' + headerLength m + 2) % 2 ^ 64 ∨ at' + headerLength m + 2 ≤ m.available) :
    (Inspected.pgrMbufU16 m.start m.fill at').LooksOnlyAt m.buf m.addresses := by
  refine Inspect.looksOnlyAt_bind.mpr ⟨Inspected.looksOnlyAt_pgrMbufData.mpr hne, ?_⟩
  exact looksOnlyAt_decoded h hlen Inspected.looksOnlyAt_u16 hcond (by omega)

theorem pgrMbufU32_looks {m : Mbuf} (h : m.Wf) (hlen : m.len < 2 ^ 64) {at' : ℕ} (hne : m.start < m.fill)
    (hcond : m.available < (at' + headerLength m + 2) % 2 ^ 64 ∨ at' + headerLength m + 4 ≤ m.available) :
    (Inspected.pgrMbufU32 m.start m.fill at').LooksOnlyAt m.buf m.addresses := by
  refine Inspect.looksOnlyAt_bind.mpr ⟨Inspected.looksOnlyAt_pgrMbufData.mpr hne, ?_⟩
  exact looksOnlyAt_decoded h hlen Inspected.looksOnlyAt_u32 hcond (by omega)

/-- **When the accessors are safe and right**: the buffer is not empty, and either `pgr_mbuf_data` finds that two
octets are not there, in sums that wrap around, or four are there and the first of them is `0`. -/
theorem accessed_iff {m : Mbuf} (h : m.Wf) (hlen : m.len < 2 ^ 64) (at' : ℕ) :
    Accessed m at' ↔ m.start < m.fill ∧ (m.available < (at' + headerLength m + 2) % 2 ^ 64 ∨
      at' + headerLength m + 4 ≤ m.available ∧ m.buf (m.start + (at' + headerLength m)) = 0) := by
  constructor
  · intro hacc
    have hvalue := (Inspected.eval_pgrMbufU32 m at').symm.trans hacc.u32.result
    exact ⟨Inspected.looksOnlyAt_pgrMbufData.mp (hacc.data 0).looks, (pgrMbufU32_iff h hlen at').mp hvalue⟩
  · rintro ⟨hne, hcond⟩
    have h4 : m.available < (at' + headerLength m + 2) % 2 ^ 64 ∨ at' + headerLength m + 4 ≤ m.available :=
      hcond.imp_right And.left
    have h2 : m.available < (at' + headerLength m + 2) % 2 ^ 64 ∨ at' + headerLength m + 2 ≤ m.available :=
      h4.imp_right fun hle => by omega
    have hu16 := (Inspected.eval_pgrMbufU16 m at').trans (pgrMbufU16_right h hlen h2)
    have hu32 := (Inspected.eval_pgrMbufU32 m at').trans ((pgrMbufU32_iff h hlen at').mpr hcond)
    exact {
      data := fun len => ⟨Inspected.eval_pgrMbufData m at' len, Inspected.looksOnlyAt_pgrMbufData.mpr hne⟩
      u16 := ⟨hu16, pgrMbufU16_looks h hlen hne h2⟩
      u32 := ⟨hu32, pgrMbufU32_looks h hlen hne h4⟩
      msgtype := ⟨Inspected.eval_pgrMbufMsgtype m, Inspected.looksOnlyAt_pgrMbufMsgtype m⟩
      iserror := fun code => ⟨Inspected.eval_pgrMbufIserror m code, Inspected.looksOnlyAt_pgrMbufIserror m code⟩ }

/-- An AuthenticationMD5Password has been received, but for its salt: the authentication code is there. -/
theorem accessed_iff_md5 : Accessed ((pgrMbufNew 16).put [0x52, 0, 0, 0, 12, 0, 0, 0, 5]) 0 :=
  (accessed_iff ⟨by decide, by decide⟩ (by decide) 0).mpr ⟨by decide, .inr ⟨by decide, by decide⟩⟩

/-- Of an AuthenticationMD5Password seven octets have been received, two of them of the authentication code. It is
decoded nevertheless, and found to be that of an AuthenticationOk. -/
theorem not_accessed_partial :
    let m := (pgrMbufNew 16).put [0x52, 0, 0, 0, 12, 0, 0]
    m.start ≤ m.fill ∧ m.fill ≤ m.len ∧ bigEndian 4 (payloadOf m.window) = -1 ∧ pgrMbufU32 m 0 = 0 ∧
      ¬ Accessed m 0 := by
  refine ⟨by decide, by decide, by decide, by decide, fun hacc => ?_⟩
  have hvalue := hacc.u32.result
  rw [Inspected.eval_pgrMbufU32] at hvalue
  revert hvalue
  decide

end PgRouter.Wire
