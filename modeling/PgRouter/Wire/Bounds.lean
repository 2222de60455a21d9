import PgRouter.Wire.Invariant

/-!
# Within bounds

What the operations on a buffer do with its octets, and that all of it is within the buffer.
Each function is written once more so that it also says, in order, which uses it makes of `buf`
(`Traced`): the octets it gives to `read`, `write`, `memcpy` or `memmove`, and the subtractions of
lengths, which are unsigned and must not go below zero. What it computes is what the function
computes, whatever `read` and `write` return (`Operation.traced_result`).

A buffer that is in order stays in order, and every use is within bounds
(`representation`): a length that is read from a message is compared with what is available
before it is used.
-/

namespace PgRouter.Wire

open Foundation

/-- A use of the buffer. -/
inductive Use where
  /-- The `n` octets at `buf + i` are given to `read`, `write`, `memcpy` or `memmove`. -/
  | octets (i n : ℤ)
  /-- The unsigned number `b` is subtracted from `a`. -/
  | minus (a b : ℕ)
  deriving DecidableEq

/-- The octets are in a buffer of `len` octets, and a difference is not negative. -/
def Use.Ok (len : ℕ) : Use → Prop
  | .octets i n => 0 ≤ i ∧ 0 ≤ n ∧ i + n ≤ len
  | .minus a b => b ≤ a

instance (len : ℕ) (u : Use) : Decidable (u.Ok len) :=
  match u with
  | .octets _ _ => inferInstanceAs (Decidable (_ ∧ _ ∧ _))
  | .minus _ _ => inferInstanceAs (Decidable (_ ≤ _))

/-- A computation: the uses it makes of the buffer, in order, and its result. -/
structure Traced (α : Type) where
  /-- The uses. -/
  uses : List Use
  /-- The result. -/
  result : α

namespace Traced

variable {α β : Type}

/-- A result, without any use. -/
def done (a : α) : Traced α := ⟨[], a⟩

/-- The uses `us`, and then `x`. -/
def after (us : List Use) (x : Traced α) : Traced α := ⟨us ++ x.uses, x.result⟩

/-- `x`, and then what `f` makes of its result. -/
def bind (x : Traced α) (f : α → Traced β) : Traced β := (f x.result).after x.uses

/-- `x`, its result being passed through `f`. -/
def map (f : α → β) (x : Traced α) : Traced β := ⟨x.uses, f x.result⟩

@[simp] theorem done_result (a : α) : (done a).result = a := rfl
@[simp] theorem after_result (us : List Use) (x : Traced α) : (x.after us).result = x.result := rfl
@[simp] theorem bind_result (x : Traced α) (f : α → Traced β) : (x.bind f).result = (f x.result).result := rfl
@[simp] theorem map_result (f : α → β) (x : Traced α) : (x.map f).result = f x.result := rfl

end Traced

/-! ### The functions, and what they use -/

/-- `available(m)`. -/
def Mbuf.availableUse (m : Mbuf) : Use := .minus m.fill m.start

/-- `read(infd, buf + fill, len - fill)`. -/
def Mbuf.readUses (m : Mbuf) : List Use := [.minus m.len m.fill, .octets m.fill ((m.len : ℤ) - m.fill)]

/-- `memmove(buf + start, buf + start + len, fill - start - len)` and `fill -= len`. -/
def Mbuf.dropFrontUses (m : Mbuf) (len : ℕ) : List Use :=
  [.minus m.fill m.start, .minus (m.fill - m.start) len,
    .octets (m.start + len) ((m.fill : ℤ) - m.start - len), .octets m.start ((m.fill : ℤ) - m.start - len),
    .minus m.fill len]

/-- `writen`, of the octets at `buf + i`. -/
def writenTraced (k : Kernel) (i : ℕ) (buf : List Octet) (len : ℕ) : Traced (Bool × List Octet × Kernel) :=
  if len = 0 then .done (true, [], k)
  else .after [.octets i len] <| match k.accept (buf.take len) with
    | (none, k') => .done (false, [], k')
    | (some got, k') =>
      if _hg : got = [] then .done (false, [], k')
      else .after [.minus len got.length] <|
        (writenTraced k' i buf (len - got.length)).map fun r => (r.1, got ++ r.2.1, r.2.2)
termination_by len
decreasing_by have := List.length_pos_iff.mpr _hg; omega

theorem writenTraced_result (k : Kernel) (i : ℕ) (buf : List Octet) (len : ℕ) :
    (writenTraced k i buf len).result = writen k buf len := by
  fun_induction writen k buf len with
  | case1 => rw [writenTraced, if_pos rfl, Traced.done_result]
  | case2 k len h0 k' hacc => rw [writenTraced, if_neg h0, hacc, Traced.after_result, Traced.done_result]
  | case3 k len h0 k' hacc =>
    rw [writenTraced, if_neg h0, hacc]
    rfl
  | case4 k len h0 got k' hacc hne r ih =>
    rw [writenTraced, if_neg h0, hacc]
    simp only [hne, dite_false, Traced.after_result, Traced.map_result, ih, r]

/-- `writen` to a descriptor. -/
def writenToTraced (k : Kernel) (fd : Fd) (i : ℕ) (buf : List Octet) (len : ℕ) : Traced (Bool × Kernel) :=
  (writenTraced k i buf len).map fun r => (r.1, r.2.2.emit fd r.2.1)

theorem writenToTraced_result (k : Kernel) (fd : Fd) (i : ℕ) (buf : List Octet) (len : ℕ) :
    (writenToTraced k fd i buf len).result = writenTo k fd buf len := by
  rw [writenToTraced, Traced.map_result, writenTraced_result]
  rfl

/-- `writen` to the cache. -/
def Mbuf.writenCacheTraced (m : Mbuf) (k : Kernel) (i : ℕ) (buf : List Octet) (len : ℕ) :
    Traced (Bool × Mbuf × Kernel) :=
  (writenTraced k i buf len).map fun r => (r.1, { m with cache := m.cache.map fun f => f.write r.2.1 }, r.2.2)

theorem writenCacheTraced_result (m : Mbuf) (k : Kernel) (i : ℕ) (buf : List Octet) (len : ℕ) :
    (m.writenCacheTraced k i buf len).result = m.writenCache k buf len := by
  rw [Mbuf.writenCacheTraced, Traced.map_result, writenTraced_result]
  rfl

/-- The loop around `write`, of the octets `data` at `buf + i`. -/
def writeLoopTraced (k : Kernel) (fd : Fd) (i : ℕ) (data : List Octet) : Traced (Bool × List Octet × Kernel) :=
  if _hd : data = [] then .done (true, [], k)
  else .after [.octets i data.length] <| match k.write fd data with
    | (none, k') => .done (false, [], k')
    | (some got, k') =>
      if _hg : got = [] then .done (false, [], k')
      else .after [.minus data.length got.length] <|
        (writeLoopTraced k' fd (i + got.length) (data.drop got.length)).map fun r => (r.1, got ++ r.2.1, r.2.2)
termination_by data.length
decreasing_by
  have h1 := List.length_pos_iff.mpr _hd
  have h2 := List.length_pos_iff.mpr _hg
  rw [List.length_drop]
  omega

theorem writeLoopTraced_result (k : Kernel) (fd : Fd) (i : ℕ) (data : List Octet) :
    (writeLoopTraced k fd i data).result = writeLoop k fd data := by
  fun_induction writeLoop k fd data generalizing i with
  | case1 => rw [writeLoopTraced, dif_pos rfl, Traced.done_result]
  | case2 k data hd k' hwrite => rw [writeLoopTraced, dif_neg hd, hwrite, Traced.after_result, Traced.done_result]
  | case3 k data hd k' hwrite =>
    rw [writeLoopTraced, dif_neg hd, hwrite]
    rfl
  | case4 k data hd got k' hwrite hne r ih =>
    rw [writeLoopTraced, dif_neg hd, hwrite]
    simp only [hne, dite_false, Traced.after_result, Traced.map_result, ih, r]

/-- `pgr_mbuf_cat`. -/
def catTraced (m : Mbuf) (buf : List Octet) : Traced (ℤ × Mbuf) :=
  .after [.minus m.len m.fill] <|
    if m.len - m.fill < buf.length then .done (1, m)
    else .after [.octets m.fill buf.length] (.done (0, m.put buf))

theorem catTraced_result (m : Mbuf) (buf : List Octet) : (catTraced m buf).result = pgrMbufCat m buf := by
  unfold catTraced pgrMbufCat
  split_ifs <;> rfl

/-- `pgr_mbuf_recv`. -/
def recvTraced (m : Mbuf) (k : Kernel) : Traced Outcome :=
  .after [m.availableUse] <|
    if m.available < 5 then
      .after m.readUses <| match _h : k.read m.infd (m.len - m.fill) with
      | (none, k') => .done (-1, m, k')
      | (some got, k') => if _hg : got = [] then .done (0, m, k') else recvTraced (m.put got) k'
    else .done (m.available, m, k)
termination_by (k.unread m.infd).length
decreasing_by exact (k.read_got _h).unread_lt _hg

theorem recvTraced_result (m : Mbuf) (k : Kernel) : (recvTraced m k).result = pgrMbufRecv m k := by
  fun_induction pgrMbufRecv m k with
  | case1 m k hlt k' hread =>
    rw [recvTraced, Traced.after_result, if_pos hlt, Traced.after_result]
    split <;> rename_i h <;> cases hread.symm.trans h
    rfl
  | case2 m k hlt k' hread =>
    rw [recvTraced, Traced.after_result, if_pos hlt, Traced.after_result]
    split <;> rename_i h <;> cases hread.symm.trans h
    rfl
  | case3 m k hlt got k' hread hne ih =>
    rw [recvTraced, Traced.after_result, if_pos hlt, Traced.after_result]
    split <;> rename_i h <;> cases hread.symm.trans h
    rw [dif_neg hne, ih]
  | case4 m k hge => rw [recvTraced, Traced.after_result, if_neg hge, Traced.done_result]

/-- The branch of `pgr_mbuf_send` that warms up the cache. -/
def warmCacheTraced (m : Mbuf) (k : Kernel) : Traced (Except Outcome (Mbuf × Kernel)) :=
  match m.cache with
  | some _ => .done (.ok (m, k))
  | none =>
    let (opened, k) := k.tmpfile
    if ¬ opened then .done (.error (1, m, k))
    else
      let m := { m with cache := some ⟨[], 0⟩ }
      if 0 < m.start then
        (m.writenCacheTraced k 0 (slice m.buf 0 m.start) m.start).bind fun (done, m, k) =>
          if ¬ done then .done (.error (1, m, k))
          else .after [m.availableUse, .octets m.start ((m.fill : ℤ) - m.start), .octets 0 ((m.fill : ℤ) - m.start)] <|
            .done (.ok ({ m with
              buf := blit m.buf 0 (slice m.buf m.start m.fill)
              fill := m.fill - m.start
              start := 0 }, k))
      else .done (.ok (m, k))

theorem warmCacheTraced_result (m : Mbuf) (k : Kernel) : (warmCacheTraced m k).result = warmCache m k := by
  unfold warmCacheTraced warmCache
  cases m.cache with
  | some f => rfl
  | none =>
    simp only [apply_ite Traced.result, Traced.done_result, Traced.after_result, Traced.bind_result,
      writenCacheTraced_result]

/-- What is available is sent and cached. -/
def sendWindowTraced (m : Mbuf) (k : Kernel) : Traced (Except Outcome (Bool × Mbuf × Kernel)) :=
  (warmCacheTraced m k).bind fun
    | .error r => .done (.error r)
    | .ok (m, k) =>
      .after [m.availableUse] <|
        (writenToTraced k m.outfd m.start m.window m.available).bind fun (wrOk, k) =>
          (m.writenCacheTraced k m.start m.window m.available).map fun (cacheOk, m, k) =>
            if ¬ cacheOk then .error (1, m, k) else .ok (wrOk, m, k)

theorem sendWindowTraced_result (m : Mbuf) (k : Kernel) : (sendWindowTraced m k).result = sendWindow m k := by
  rw [sendWindowTraced, sendWindow, Traced.bind_result, warmCacheTraced_result]
  cases warmCache m k with
  | error r => rfl
  | ok r =>
    simp only [Traced.after_result, Traced.bind_result, Traced.map_result, writenToTraced_result,
      writenCacheTraced_result]

/-- The loop of `pgr_mbuf_send`. -/
def sendLoopTraced (len : ℕ) (wrOk : Bool) (m : Mbuf) (k : Kernel) :
    Traced (Except Outcome (ℕ × Bool × Mbuf × Kernel)) :=
  .after [m.availableUse] <|
    if m.available < len then
      .after (sendWindowTraced m k).uses <| match _hw : (sendWindowTraced m k).result with
      | .error r => .done (.error r)
      | .ok (wrOk, m', k') =>
        .after (.minus len m'.available :: m'.empty.readUses) <| match _hr : k'.read m'.infd (m'.len - m'.start) with
        | (none, k'') => .done (.error (-1, m'.empty, k''))
        | (some got, k'') =>
          if _hg : got = [] then .done (.error (0, m'.empty, k''))
          else sendLoopTraced (len - m'.available) wrOk (m'.empty.put got) k''
    else .done (.ok (len, wrOk, m, k))
termination_by (k.unread m.infd).length
decreasing_by
  rw [sendWindowTraced_result] at _hw
  have h := (k'.read_got _hr).unread_lt _hg
  rw [(sendWindow_infd _hw).2] at h
  rwa [show (m'.empty.put got).infd = m.infd from (sendWindow_infd _hw).1,
    ← (sendWindow_infd _hw).1]

theorem sendLoopTraced_result (len : ℕ) (wrOk : Bool) (m : Mbuf) (k : Kernel) :
    (sendLoopTraced len wrOk m k).result = sendLoop len wrOk m k := by
  fun_induction sendLoop len wrOk m k with
  | case1 len wrOk m k hlt r hwin =>
    rw [sendLoopTraced, Traced.after_result, if_pos hlt, Traced.after_result]
    split <;> rename_i h <;> rw [sendWindowTraced_result, hwin] at h <;> cases h
    rfl
  | case2 len wrOk m k hlt wrOk₁ m₁ k₁ hwin k₂ hread =>
    rw [sendLoopTraced, Traced.after_result, if_pos hlt, Traced.after_result]
    split <;> rename_i h <;> rw [sendWindowTraced_result, hwin] at h <;> cases h
    rw [Traced.after_result]
    split <;> rename_i h' <;> cases hread.symm.trans h'
    rfl
  | case3 len wrOk m k hlt wrOk₁ m₁ k₁ hwin k₂ hread =>
    rw [sendLoopTraced, Traced.after_result, if_pos hlt, Traced.after_result]
    split <;> rename_i h <;> rw [sendWindowTraced_result, hwin] at h <;> cases h
    rw [Traced.after_result]
    split <;> rename_i h' <;> cases hread.symm.trans h'
    rfl
  | case4 len wrOk m k hlt wrOk₁ m₁ k₁ hwin got k₂ hread hne ih =>
    rw [sendLoopTraced, Traced.after_result, if_pos hlt, Traced.after_result]
    split <;> rename_i h <;> rw [sendWindowTraced_result, hwin] at h <;> cases h
    rw [Traced.after_result]
    split <;> rename_i h' <;> cases hread.symm.trans h'
    rw [dif_neg hne, ih]
  | case5 len wrOk m k hge => rw [sendLoopTraced, Traced.after_result, if_neg hge, Traced.done_result]

/-- `pgr_mbuf_send` after its loop. -/
def sendRestTraced (len : ℕ) (wrOk : Bool) (m : Mbuf) (k : Kernel) : Traced Outcome :=
  if 0 < len then
    let w := slice m.buf m.start (m.start + len)
    (writenToTraced k m.outfd m.start w len).bind fun (wrOk, k) =>
      match m.cache with
      | some _ => (m.writenCacheTraced k m.start w len).bind fun (cacheOk, m, k) =>
        if ¬ cacheOk then .done (1, m, k)
        else .after (m.dropFrontUses len) (.done (if wrOk then 0 else 1, m.dropFront len, k))
      | none => .done (if wrOk then 0 else 1, { m with start := m.start + len }, k)
  else .done (if wrOk then 0 else 1, m, k)

theorem sendRestTraced_result (len : ℕ) (wrOk : Bool) (m : Mbuf) (k : Kernel) :
    (sendRestTraced len wrOk m k).result = sendRest len wrOk m k := by
  unfold sendRestTraced sendRest
  simp only [apply_ite Traced.result, Traced.bind_result, Traced.done_result, writenToTraced_result]
  cases m.cache with
  | some f => simp only [apply_ite Traced.result, Traced.bind_result, Traced.after_result, Traced.done_result,
      writenCacheTraced_result]
  | none => rfl

/-- `pgr_mbuf_send`. -/
def sendTraced (m : Mbuf) (k : Kernel) : Traced Outcome :=
  .after [m.availableUse] <|
    if m.available < 5 then .done (1, m, k)
    else (sendLoopTraced (size m) true m k).bind fun
      | .error r => .done r
      | .ok (len, wrOk, m, k) => sendRestTraced len wrOk m k

theorem sendTraced_result (m : Mbuf) (k : Kernel) : (sendTraced m k).result = pgrMbufSend m k := by
  rw [sendTraced, pgrMbufSend, Traced.after_result, apply_ite Traced.result, Traced.bind_result, sendLoopTraced_result]
  cases sendLoop (size m) true m k with
  | error r => rfl
  | ok r => simp only [Traced.done_result, sendRestTraced_result]

/-- `pgr_mbuf_resend`, of what is in the buffer. -/
def resendBufTraced (m : Mbuf) (k : Kernel) : Traced Outcome :=
  (writeLoopTraced k m.outfd 0 (slice m.buf 0 m.start)).map fun (done, w, k) =>
    (if done then 0 else 1, { m with start := w.length }, k)

theorem resendBufTraced_result (m : Mbuf) (k : Kernel) :
    (resendBufTraced m k).result = pgrMbufResend.resendBuf m k := by
  rw [resendBufTraced, pgrMbufResend.resendBuf, Traced.map_result, writeLoopTraced_result]

/-- `pgr_mbuf_resend`. What is in the cache is not read into the buffer. -/
def resendTraced (m : Mbuf) (k : Kernel) : Traced Outcome :=
  match m.cache with
  | some f =>
    let (done, f', k) := resendCache f.offset { f with offset := 0 } m.outfd k
    let m := { m with cache := some f' }
    if ¬ done then .done (1, m, k) else resendBufTraced m k
  | none => resendBufTraced m k

theorem resendTraced_result (m : Mbuf) (k : Kernel) : (resendTraced m k).result = pgrMbufResend m k := by
  unfold resendTraced pgrMbufResend
  cases m.cache with
  | some f => simp only [apply_ite Traced.result, Traced.done_result, resendBufTraced_result]
  | none => exact resendBufTraced_result m k

/-- The loop around `write` of `pgr_mbuf_relay`. -/
def relayWriteTraced (wrOk : Bool) (k : Kernel) (fd : Fd) (i : ℕ) (data : List Octet) :
    Traced (Bool × List Octet × Kernel) :=
  if wrOk then writeLoopTraced k fd i data else .done (false, [], k)

theorem relayWriteTraced_result (wrOk : Bool) (k : Kernel) (fd : Fd) (i : ℕ) (data : List Octet) :
    (relayWriteTraced wrOk k fd i data).result = relayWrite wrOk k fd data := by
  rw [relayWriteTraced, relayWrite, apply_ite Traced.result, writeLoopTraced_result, Traced.done_result]

/-- The loop of `pgr_mbuf_relay`. -/
def relayLoopTraced (len : ℕ) (wrOk : Bool) (m : Mbuf) (k : Kernel) :
    Traced (Except Outcome (ℕ × Bool × Mbuf × Kernel)) :=
  .after [m.availableUse] <|
    if m.available < len then
      let r := relayWriteTraced wrOk k m.outfd m.start m.window
      .after (r.uses ++ .minus len m.available :: m.empty.readUses) <|
        match _hr : r.result.2.2.read m.infd (m.len - m.start) with
        | (none, k'') => .done (.error (1, m.empty, k''))
        | (some got, k'') =>
          if _hg : got = [] then .done (.error (1, m.empty, k''))
          else relayLoopTraced (len - m.available) r.result.1 (m.empty.put got) k''
    else .done (.ok (len, wrOk, m, k))
termination_by (k.unread m.infd).length
decreasing_by
  rw [relayWriteTraced_result] at _hr
  have h := (Kernel.read_got _hr).unread_lt _hg
  rwa [relayWrite_unread] at h

theorem relayLoopTraced_result (len : ℕ) (wrOk : Bool) (m : Mbuf) (k : Kernel) :
    (relayLoopTraced len wrOk m k).result = relayLoop len wrOk m k := by
  fun_induction relayLoop len wrOk m k with
  | case1 len wrOk m k hlt r k₁ hread =>
    rw [relayLoopTraced, Traced.after_result, if_pos hlt, Traced.after_result]
    split <;> rename_i h <;> rw [relayWriteTraced_result] at h <;> cases hread.symm.trans h
    rfl
  | case2 len wrOk m k hlt r k₁ hread =>
    rw [relayLoopTraced, Traced.after_result, if_pos hlt, Traced.after_result]
    split <;> rename_i h <;> rw [relayWriteTraced_result] at h <;> cases hread.symm.trans h
    rfl
  | case3 len wrOk m k hlt r got k₁ hread hne ih =>
    rw [relayLoopTraced, Traced.after_result, if_pos hlt, Traced.after_result]
    split <;> rename_i h <;> rw [relayWriteTraced_result] at h <;> cases hread.symm.trans h
    rw [dif_neg hne, relayWriteTraced_result, ih]
  | case4 len wrOk m k hge => rw [relayLoopTraced, Traced.after_result, if_neg hge, Traced.done_result]

/-- `pgr_mbuf_relay` after its loop. -/
def relayRestTraced (len : ℕ) (wrOk : Bool) (m : Mbuf) (k : Kernel) : Traced Outcome :=
  if 0 < len then
    (relayWriteTraced wrOk k m.outfd m.start (slice m.buf m.start (m.start + len))).bind fun r =>
      .after (m.dropFrontUses len) (.done (if r.1 then 0 else 1, m.dropFront len, r.2.2))
  else .done (if wrOk then 0 else 1, m, k)

theorem relayRestTraced_result (len : ℕ) (wrOk : Bool) (m : Mbuf) (k : Kernel) :
    (relayRestTraced len wrOk m k).result = relayRest len wrOk m k := by
  unfold relayRestTraced relayRest
  simp only [apply_ite Traced.result, Traced.bind_result, Traced.after_result, Traced.done_result,
    relayWriteTraced_result]

/-- `pgr_mbuf_relay`. -/
def relayTraced (m : Mbuf) (k : Kernel) : Traced Outcome :=
  .after [m.availableUse] <|
    if m.available < 5 then .done (1, m, k)
    else (relayLoopTraced (size m) true m k).bind fun
      | .error r => .done r
      | .ok (len, wrOk, m, k) => relayRestTraced len wrOk m k

theorem relayTraced_result (m : Mbuf) (k : Kernel) : (relayTraced m k).result = pgrMbufRelay m k := by
  rw [relayTraced, pgrMbufRelay, Traced.after_result, apply_ite Traced.result, Traced.bind_result,
    relayLoopTraced_result]
  cases relayLoop (size m) true m k with
  | error r => rfl
  | ok r => simp only [Traced.done_result, relayRestTraced_result]

/-- The loop of `pgr_mbuf_discard`. -/
def discardLoopTraced (len : ℕ) (m : Mbuf) (k : Kernel) : Traced (Except Outcome (ℕ × Mbuf × Kernel)) :=
  .after [m.availableUse] <|
    if m.available < len then
      .after (.minus len m.available :: m.empty.readUses) <| match _hr : k.read m.infd (m.len - m.start) with
      | (none, k') => .done (.error (-1, m.empty, k'))
      | (some got, k') =>
        if _hg : got = [] then .done (.error (0, m.empty, k'))
        else discardLoopTraced (len - m.available) (m.empty.put got) k'
    else .done (.ok (len, m, k))
termination_by (k.unread m.infd).length
decreasing_by exact (k.read_got _hr).unread_lt _hg

theorem discardLoopTraced_result (len : ℕ) (m : Mbuf) (k : Kernel) :
    (discardLoopTraced len m k).result = discardLoop len m k := by
  fun_induction discardLoop len m k with
  | case1 len m k hlt k₁ hread =>
    rw [discardLoopTraced, Traced.after_result, if_pos hlt, Traced.after_result]
    split <;> rename_i h <;> cases hread.symm.trans h
    rfl
  | case2 len m k hlt k₁ hread =>
    rw [discardLoopTraced, Traced.after_result, if_pos hlt, Traced.after_result]
    split <;> rename_i h <;> cases hread.symm.trans h
    rfl
  | case3 len m k hlt got k₁ hread hne ih =>
    rw [discardLoopTraced, Traced.after_result, if_pos hlt, Traced.after_result]
    split <;> rename_i h <;> cases hread.symm.trans h
    rw [dif_neg hne, ih]
  | case4 len m k hge => rw [discardLoopTraced, Traced.after_result, if_neg hge, Traced.done_result]

/-- `pgr_mbuf_discard`. -/
def discardTraced (m : Mbuf) (k : Kernel) : Traced Outcome :=
  .after [m.availableUse] <|
    if m.available < 5 then .done (1, m, k)
    else (discardLoopTraced (size m) m k).bind fun
      | .error r => .done r
      | .ok (len, m, k) =>
        if 0 < len then .after (m.dropFrontUses len) (.done (0, m.dropFront len, k)) else .done (0, m, k)

theorem discardTraced_result (m : Mbuf) (k : Kernel) : (discardTraced m k).result = pgrMbufDiscard m k := by
  rw [discardTraced, pgrMbufDiscard, Traced.after_result, apply_ite Traced.result, Traced.bind_result,
    discardLoopTraced_result]
  cases discardLoop (size m) m k with
  | error r => rfl
  | ok r =>
    obtain ⟨len, m', k'⟩ := r
    simp only [apply_ite Traced.result, Traced.after_result, Traced.done_result]
    split_ifs <;> rfl

/-- A round of `pgr_mbuf_drain`. -/
def drainRoundTraced (until' : ℤ) (m : Mbuf) (k : Kernel) : Traced (Except Outcome (Mbuf × Kernel)) :=
  let type := pgrMbufMsgtype m
  if type < 0 then .done (.error (-1, m, k))
  else (discardTraced m k).bind fun (_, m, k) =>
    if type = until' then .done (.error (0, m, k))
    else (recvTraced m k).map fun (_, m, k) => .ok (m, k)

theorem drainRoundTraced_result (until' : ℤ) (m : Mbuf) (k : Kernel) :
    (drainRoundTraced until' m k).result = drainRound until' m k := by
  unfold drainRoundTraced drainRound
  simp only [apply_ite Traced.result, Traced.bind_result, Traced.map_result, Traced.done_result, discardTraced_result,
    recvTraced_result]

/-- The first `n` rounds of `pgr_mbuf_drain`, or all of them if it returns before. -/
def drainTraced (until' : ℤ) : ℕ → Mbuf → Kernel → Traced (Mbuf × Kernel)
  | 0, m, k => .done (m, k)
  | n + 1, m, k => (drainRoundTraced until' m k).bind fun
    | .error (_, m, k) => .done (m, k)
    | .ok (m, k) => drainTraced until' n m k

/-! ### They are within bounds -/

/-- All the uses are within a buffer of `len` octets. -/
def Within (len : ℕ) (us : List Use) : Prop := ∀ u ∈ us, u.Ok len

theorem within_nil (len : ℕ) : Within len [] := fun _ h => absurd h List.not_mem_nil

theorem Within.cons {len : ℕ} {u : Use} {us : List Use} (hu : u.Ok len) (hus : Within len us) : Within len (u :: us) :=
  List.forall_mem_cons.mpr ⟨hu, hus⟩

theorem Within.append {len : ℕ} {us vs : List Use} (hus : Within len us) (hvs : Within len vs) :
    Within len (us ++ vs) :=
  List.forall_mem_append.mpr ⟨hus, hvs⟩

theorem Within.single {len : ℕ} {u : Use} (hu : u.Ok len) : Within len [u] := .cons hu (within_nil len)

section

variable {α β : Type} {len : ℕ} {us : List Use} {x : Traced α} {f : α → Traced β}

theorem Within.after (hus : Within len us) (hx : Within len x.uses) : Within len (x.after us).uses := hus.append hx

theorem Within.bind (hx : Within len x.uses) (hf : Within len (f x.result).uses) : Within len (x.bind f).uses :=
  hx.append hf

end

theorem octets_ok {len i n : ℕ} (h : i + n ≤ len) : (Use.octets i n).Ok len :=
  ⟨Int.natCast_nonneg i, Int.natCast_nonneg n, by exact_mod_cast h⟩

/-- A difference is handed over. -/
theorem octets_sub_ok {len i a b : ℕ} (hb : b ≤ a) (h : i + (a - b) ≤ len) :
    (Use.octets i ((a : ℤ) - b)).Ok len := by
  rw [← Nat.cast_sub hb]
  exact octets_ok h

theorem availableUse_ok {m : Mbuf} (h : m.Wf) : m.availableUse.Ok m.len := h.start_le

theorem readUses_within {m : Mbuf} (h : m.Wf) : Within m.len m.readUses :=
  .cons h.fill_le (.cons (octets_sub_ok h.fill_le (Nat.add_sub_cancel' h.fill_le).le) (within_nil _))

theorem dropFrontUses_within {m : Mbuf} (h : m.Wf) {len : ℕ} (hlen : len ≤ m.available) :
    Within m.len (m.dropFrontUses len) := by
  have h1 := h.start_le
  have h2 := h.fill_le
  have hlen' : len ≤ m.fill - m.start := hlen
  have hsub : (m.fill : ℤ) - m.start - len = (m.fill - m.start - len : ℕ) := by omega
  unfold Mbuf.dropFrontUses
  rw [hsub]
  exact .cons h1 (.cons hlen (.cons (octets_ok (by omega)) (.cons (octets_ok (by omega))
    (.cons (show len ≤ m.fill by omega) (within_nil _)))))

/-- What is put behind the octets available has been read there. -/
theorem put_wf {m : Mbuf} (h : m.Wf) {k k' : Kernel} {got : List Octet}
    (hread : k.read m.infd (m.len - m.fill) = (some got, k')) : (m.put got).Wf :=
  (effect_put h (k.read_got hread)).wf

theorem writenTraced_within {len' : ℕ} (k : Kernel) (i : ℕ) (buf : List Octet) (len : ℕ) (h : i + len ≤ len') :
    Within len' (writenTraced k i buf len).uses := by
  fun_induction writen k buf len with
  | case1 =>
    rw [writenTraced, if_pos rfl]
    exact within_nil _
  | case2 k len h0 k' hacc =>
    rw [writenTraced, if_neg h0, hacc]
    exact .cons (octets_ok h) (within_nil _)
  | case3 k len h0 k' hacc =>
    rw [writenTraced, if_neg h0, hacc]
    exact .cons (octets_ok h) (within_nil _)
  | case4 k len h0 got k' hacc hne r ih =>
    have hgot : got.length ≤ len := by
      have := (k.accept_asked hacc).1.length_le
      rw [Option.getD_some, List.length_take] at this
      omega
    rw [writenTraced, if_neg h0, hacc]
    simp only [hne, dite_false]
    exact .cons (octets_ok h) (.cons hgot (ih (by omega)))

theorem writeLoopTraced_within {len : ℕ} (k : Kernel) (fd : Fd) (i : ℕ) (data : List Octet)
    (h : i + data.length ≤ len) : Within len (writeLoopTraced k fd i data).uses := by
  fun_induction writeLoop k fd data generalizing i with
  | case1 =>
    rw [writeLoopTraced, dif_pos rfl]
    exact within_nil _
  | case2 k data hd k' hwrite =>
    rw [writeLoopTraced, dif_neg hd, hwrite]
    exact .cons (octets_ok h) (within_nil _)
  | case3 k data hd k' hwrite =>
    rw [writeLoopTraced, dif_neg hd, hwrite]
    exact .cons (octets_ok h) (within_nil _)
  | case4 k data hd got k' hwrite hne r ih =>
    have hgot : got.length ≤ data.length := by
      have := (k.write_wrote hwrite).1.length_le
      rwa [Option.getD_some] at this
    rw [writeLoopTraced, dif_neg hd, hwrite]
    simp only [hne, dite_false]
    exact .cons (octets_ok h) (.cons hgot (ih _ (by rw [List.length_drop]; omega)))

theorem relayWriteTraced_within {len : ℕ} (wrOk : Bool) (k : Kernel) (fd : Fd) (i : ℕ) (data : List Octet)
    (h : i + data.length ≤ len) : Within len (relayWriteTraced wrOk k fd i data).uses := by
  unfold relayWriteTraced
  split_ifs
  · exact writeLoopTraced_within k fd i data h
  · exact within_nil _

theorem catTraced_within {m : Mbuf} (h : m.Wf) (buf : List Octet) : Within m.len (catTraced m buf).uses := by
  have h2 := h.fill_le
  unfold catTraced
  split_ifs with hlen
  · exact .cons h2 (within_nil _)
  · exact .cons h2 (.cons (octets_ok (by omega)) (within_nil _))

theorem recvTraced_within {m : Mbuf} (h : m.Wf) (k : Kernel) : Within m.len (recvTraced m k).uses := by
  fun_induction recvTraced m k with
  | case1 m k ih =>
    refine .after (.single (availableUse_ok h)) ?_
    split_ifs with hlt
    · refine .after (readUses_within h) ?_
      split
      · exact within_nil _
      · rename_i got k' hread
        split_ifs with hne
        · exact within_nil _
        · exact ih got k' hread hne (put_wf h hread)
    · exact within_nil _

/-- The octets available are in the buffer. -/
theorem start_add_available {m : Mbuf} (h : m.Wf) : m.start + m.available ≤ m.len := by
  have h1 := h.start_le
  have h2 := h.fill_le
  unfold Mbuf.available
  omega

theorem warmCacheTraced_within {m : Mbuf} (h : m.Wf) (k : Kernel) : Within m.len (warmCacheTraced m k).uses := by
  have h1 := h.start_le
  have h2 := h.fill_le
  have hfrom : (Use.octets m.start ((m.fill : ℤ) - m.start)).Ok m.len := octets_sub_ok h1 (by omega)
  have hto : (Use.octets 0 ((m.fill : ℤ) - m.start)).Ok m.len := octets_sub_ok (i := 0) h1 (by omega)
  unfold warmCacheTraced
  cases m.cache with
  | some f => exact within_nil _
  | none =>
    simp only
    by_cases hopen : k.tmpfile.1 = true
    · rw [if_neg (not_not.mpr hopen)]
      by_cases h0 : 0 < m.start
      · rw [if_pos h0]
        refine .bind (writenTraced_within _ 0 _ _ (by omega)) ?_
        split_ifs
        · exact .after (.cons h1 (.cons hfrom (.single hto))) (within_nil _)
        · exact within_nil _
      · rw [if_neg h0]
        exact within_nil _
    · rw [if_pos hopen]
      exact within_nil _

/-- Moving the octets available to the beginning of the buffer does not change their number. -/
theorem warmCache_available {m m' : Mbuf} {k k' : Kernel} (h : warmCache m k = .ok (m', k')) :
    m'.available = m.available := by
  unfold warmCache at h
  split at h
  · cases h; rfl
  · simp only at h
    split_ifs at h
    · cases h; rfl
    · cases h; rfl

theorem sendWindow_available {m m' : Mbuf} {k k' : Kernel} {wrOk : Bool} (h : sendWindow m k = .ok (wrOk, m', k')) :
    m'.available = m.available := by
  unfold sendWindow at h
  split at h
  · cases h
  · rename_i m₁ k₁ hwarm
    simp only at h
    split_ifs at h
    cases h
    show m₁.available = m.available
    exact warmCache_available hwarm

theorem sendWindowTraced_within {m : Mbuf} (h : m.Wf) (k : Kernel) : Within m.len (sendWindowTraced m k).uses := by
  have hwarm := warmCache_safe h k
  refine .bind (warmCacheTraced_within h k) ?_
  rw [warmCacheTraced_result]
  cases hr : warmCache m k with
  | error r => exact within_nil _
  | ok r =>
    obtain ⟨m₁, k₁⟩ := r
    rw [hr] at hwarm
    have hav := start_add_available hwarm.wf
    rw [hwarm.len] at hav
    exact .after (.single hwarm.wf.start_le)
      (.bind (writenTraced_within _ _ _ _ hav) (writenTraced_within _ _ _ _ hav))

theorem sendLoopTraced_within (len : ℕ) (wrOk : Bool) {m : Mbuf} (h : m.Wf) (k : Kernel) :
    Within m.len (sendLoopTraced len wrOk m k).uses := by
  fun_induction sendLoopTraced len wrOk m k with
  | case1 len wrOk m k ih =>
    refine .after (.single (availableUse_ok h)) ?_
    split_ifs with hlt
    · refine .after (sendWindowTraced_within h k) ?_
      have hs := sendWindow_safe h k
      split
      · exact within_nil _
      · rename_i wrOk m₁ k₁ hwin
        rw [← sendWindowTraced_result, hwin] at hs
        have hempty := empty_wf hs.wf
        have hav : m₁.available ≤ len := by
          rw [sendWindow_available ((sendWindowTraced_result m k).symm.trans hwin)]
          omega
        rw [← hs.len]
        refine .after (.cons hav (readUses_within hempty)) ?_
        split
        · exact within_nil _
        · rename_i got k₂ hread
          split_ifs with hne
          · exact within_nil _
          · exact ih wrOk m₁ k₁ hwin got k₂ hread hne (put_wf hempty hread)
    · exact within_nil _

theorem sendRestTraced_within {len : ℕ} {m : Mbuf} (h : m.Wf) (hlen : len ≤ m.available) (wrOk : Bool) (k : Kernel) :
    Within m.len (sendRestTraced len wrOk m k).uses := by
  have hav := start_add_available h
  have hw : ∀ k, Within m.len (writenTraced k m.start (slice m.buf m.start (m.start + len)) len).uses :=
    fun k => writenTraced_within k _ _ _ (by omega)
  by_cases h0 : 0 < len
  · rw [sendRestTraced, if_pos h0]
    refine .bind (hw k) ?_
    simp only
    cases m.cache with
    | some f =>
      refine .bind (hw _) ?_
      split_ifs
      · exact .after (dropFrontUses_within h hlen) (within_nil _)
      · exact .after (dropFrontUses_within h hlen) (within_nil _)
      · exact within_nil _
    | none => exact within_nil _
  · rw [sendRestTraced, if_neg h0]
    exact within_nil _

theorem sendTraced_within {m : Mbuf} (h : m.Wf) (k : Kernel) : Within m.len (sendTraced m k).uses := by
  have hloop := sendLoop_safe (size m) true h k
  refine .after (.single (availableUse_ok h)) ?_
  split_ifs with hav
  · exact within_nil _
  · refine .bind (sendLoopTraced_within _ _ h k) ?_
    rw [sendLoopTraced_result]
    cases hr : sendLoop (size m) true m k with
    | error r => exact within_nil _
    | ok r =>
      rw [hr] at hloop
      rw [← hloop.1.len]
      exact sendRestTraced_within hloop.1.wf hloop.2 _ _

theorem resendTraced_within {m : Mbuf} (h : m.Wf) (k : Kernel) : Within m.len (resendTraced m k).uses := by
  have hbuf : ∀ k, Within m.len (writeLoopTraced k m.outfd 0 (slice m.buf 0 m.start)).uses := fun k => by
    refine writeLoopTraced_within k _ 0 _ ?_
    rw [length_slice]
    have h1 := h.start_le
    have h2 := h.fill_le
    omega
  unfold resendTraced
  split
  · simp only
    split_ifs
    · exact hbuf _
    · exact within_nil _
  · exact hbuf k

theorem relayLoopTraced_within (len : ℕ) (wrOk : Bool) {m : Mbuf} (h : m.Wf) (k : Kernel) :
    Within m.len (relayLoopTraced len wrOk m k).uses := by
  fun_induction relayLoopTraced len wrOk m k with
  | case1 len wrOk m k ih =>
    have hempty := empty_wf h
    refine .after (.single (availableUse_ok h)) ?_
    split_ifs with hlt
    · have hwindow : m.start + m.window.length ≤ m.len := by
        rw [length_window]
        exact start_add_available h
      refine .after (.append (relayWriteTraced_within _ _ _ _ _ hwindow) (.cons hlt.le (readUses_within hempty))) ?_
      · split
        · exact within_nil _
        · rename_i got k' hread
          split_ifs with hne
          · exact within_nil _
          · exact ih got k' hread hne (put_wf hempty hread)
    · exact within_nil _

theorem discardLoopTraced_within (len : ℕ) {m : Mbuf} (h : m.Wf) (k : Kernel) :
    Within m.len (discardLoopTraced len m k).uses := by
  fun_induction discardLoopTraced len m k with
  | case1 len m k ih =>
    have hempty := empty_wf h
    refine .after (.single (availableUse_ok h)) ?_
    split_ifs with hlt
    · refine .after (.cons hlt.le (readUses_within hempty)) ?_
      split
      · exact within_nil _
      · rename_i got k' hread
        split_ifs with hne
        · exact within_nil _
        · exact ih got k' hread hne (put_wf hempty hread)
    · exact within_nil _

theorem relayRestTraced_within {len : ℕ} {m : Mbuf} (h : m.Wf) (hlen : len ≤ m.available) (wrOk : Bool) (k : Kernel) :
    Within m.len (relayRestTraced len wrOk m k).uses := by
  have hle := start_add_available h
  have hslice : m.start + (slice m.buf m.start (m.start + len)).length ≤ m.len := by
    rw [length_slice]
    omega
  by_cases h0 : 0 < len
  · rw [relayRestTraced, if_pos h0]
    exact .bind (relayWriteTraced_within _ _ _ _ _ hslice) (.after (dropFrontUses_within h hlen) (within_nil _))
  · rw [relayRestTraced, if_neg h0]
    exact within_nil _

theorem relayTraced_within {m : Mbuf} (h : m.Wf) (k : Kernel) : Within m.len (relayTraced m k).uses := by
  refine .after (.single (availableUse_ok h)) ?_
  split_ifs with hav
  · exact within_nil _
  · refine .bind (relayLoopTraced_within _ _ h k) ?_
    have hroom : m.start < m.len := by
      have h1 := start_add_available h
      omega
    have hloop := relayLoop_spec (size m) true h hroom (k := k)
    rw [relayLoopTraced_result]
    cases hr : relayLoop (size m) true m k with
    | error r => exact within_nil _
    | ok r =>
      obtain ⟨len, wrOk, m₁, k₁⟩ := r
      rw [hr] at hloop
      obtain ⟨u, w, hrel, -, hlen⟩ := hloop
      rw [← hrel.toEffect.len]
      exact relayRestTraced_within hrel.wf hlen wrOk k₁

theorem discardTraced_within {m : Mbuf} (h : m.Wf) (k : Kernel) : Within m.len (discardTraced m k).uses := by
  refine .after (.single (availableUse_ok h)) ?_
  split_ifs with hav
  · exact within_nil _
  · refine .bind (discardLoopTraced_within _ h k) ?_
    have hroom : m.start < m.len := by
      have h1 := start_add_available h
      omega
    have hloop := discardLoop_spec (size m) h hroom (k := k)
    rw [discardLoopTraced_result]
    cases hr : discardLoop (size m) m k with
    | error r => exact within_nil _
    | ok r =>
      obtain ⟨len, m₁, k₁⟩ := r
      rw [hr] at hloop
      obtain ⟨u, he, -, -, hlen⟩ := hloop
      simp only
      rw [← he.len]
      split_ifs
      · exact .after (dropFrontUses_within he.wf hlen) (within_nil _)
      · exact within_nil _

theorem drainRoundTraced_within (until' : ℤ) {m : Mbuf} (h : m.Wf) (k : Kernel) :
    Within m.len (drainRoundTraced until' m k).uses := by
  have hdiscard := pgrMbufDiscard_safe h k
  have hrecv := recvTraced_within hdiscard.wf (pgrMbufDiscard m k).2.2
  rw [hdiscard.len] at hrecv
  by_cases hnone : pgrMbufMsgtype m < 0
  · rw [drainRoundTraced, if_pos hnone]
    exact within_nil _
  · rw [drainRoundTraced, if_neg hnone]
    refine .bind (discardTraced_within h k) ?_
    rw [discardTraced_result]
    change Within m.len (if pgrMbufMsgtype m = until' then Traced.done _ else Traced.map _ (recvTraced _ _)).uses
    split_ifs
    · exact within_nil _
    · exact hrecv

theorem drainTraced_within (until' : ℤ) (n : ℕ) {m : Mbuf} (h : m.Wf) (k : Kernel) :
    Within m.len (drainTraced until' n m k).uses := by
  induction n generalizing m k with
  | zero => exact within_nil _
  | succ n ih =>
    have hround := drainRound_safe until' h k
    refine .bind (drainRoundTraced_within until' h k) ?_
    rw [drainRoundTraced_result]
    cases hr : drainRound until' m k with
    | error r => exact within_nil _
    | ok r =>
      rw [hr] at hround
      rw [← hround.len]
      exact ih hround.wf _

/-! ### Every operation -/

/-- An operation on a buffer. -/
inductive Operation where
  /-- `pgr_mbuf_cat`. -/
  | cat (buf : List Octet)
  /-- `pgr_mbuf_recv`. -/
  | recv
  /-- `pgr_mbuf_send`. -/
  | send
  /-- `pgr_mbuf_resend`. -/
  | resend
  /-- `pgr_mbuf_relay`. -/
  | relay
  /-- `pgr_mbuf_discard`. -/
  | discard
  /-- The first `n` rounds of `pgr_mbuf_drain`, or all of them if it returns before. -/
  | drain (until' : ℤ) (n : ℕ)
  /-- `pgr_mbuf_setfd`. -/
  | setfd (infd outfd : Fd)
  /-- `pgr_mbuf_reset`. -/
  | reset

/-- The first `n` rounds of `pgr_mbuf_drain`. -/
def drainRounds (until' : ℤ) : ℕ → Mbuf → Kernel → Mbuf × Kernel
  | 0, m, k => (m, k)
  | n + 1, m, k =>
    match drainRound until' m k with
    | .error (_, m, k) => (m, k)
    | .ok (m, k) => drainRounds until' n m k

/-- What an operation leaves. -/
def Operation.after (m : Mbuf) (k : Kernel) : Operation → Mbuf × Kernel
  | .cat buf => ((pgrMbufCat m buf).2, k)
  | .recv => (pgrMbufRecv m k).2
  | .send => (pgrMbufSend m k).2
  | .resend => (pgrMbufResend m k).2
  | .relay => (pgrMbufRelay m k).2
  | .discard => (pgrMbufDiscard m k).2
  | .drain until' n => drainRounds until' n m k
  | .setfd infd outfd => (pgrMbufSetfd m infd outfd, k)
  | .reset => (pgrMbufReset m, k)

/-- An operation, and what it does with the octets of the buffer. -/
def Operation.traced (m : Mbuf) (k : Kernel) : Operation → Traced (Mbuf × Kernel)
  | .cat buf => (catTraced m buf).map fun r => (r.2, k)
  | .recv => (recvTraced m k).map Prod.snd
  | .send => (sendTraced m k).map Prod.snd
  | .resend => (resendTraced m k).map Prod.snd
  | .relay => (relayTraced m k).map Prod.snd
  | .discard => (discardTraced m k).map Prod.snd
  | .drain until' n => drainTraced until' n m k
  | .setfd infd outfd => .done (pgrMbufSetfd m infd outfd, k)
  | .reset => .done (pgrMbufReset m, k)

/-- What an operation does with the octets of the buffer. -/
def Operation.uses (m : Mbuf) (k : Kernel) (op : Operation) : List Use := (op.traced m k).uses

theorem drainTraced_result (until' : ℤ) (n : ℕ) (m : Mbuf) (k : Kernel) :
    (drainTraced until' n m k).result = drainRounds until' n m k := by
  induction n generalizing m k with
  | zero => rfl
  | succ n ih =>
    rw [drainTraced, drainRounds, Traced.bind_result, drainRoundTraced_result]
    cases drainRound until' m k with
    | error r => rfl
    | ok r => exact ih r.1 r.2

/-- **The uses are those of the operation**: what is computed with them is what it leaves. -/
theorem Operation.traced_result (m : Mbuf) (k : Kernel) (op : Operation) : (op.traced m k).result = op.after m k := by
  cases op with
  | cat buf => rw [traced, after, Traced.map_result, catTraced_result]
  | recv => rw [traced, after, Traced.map_result, recvTraced_result]
  | send => rw [traced, after, Traced.map_result, sendTraced_result]
  | resend => rw [traced, after, Traced.map_result, resendTraced_result]
  | relay => rw [traced, after, Traced.map_result, relayTraced_result]
  | discard => rw [traced, after, Traced.map_result, discardTraced_result]
  | drain until' n => exact drainTraced_result until' n m k
  | setfd infd outfd => rfl
  | reset => rfl

theorem pgrMbufNew_wf (len : ℕ) : (pgrMbufNew len).Wf := ⟨le_rfl, Nat.zero_le len⟩

theorem pgrMbufCat_wf {m : Mbuf} (h : m.Wf) (buf : List Octet) : (pgrMbufCat m buf).2.Wf := by
  unfold pgrMbufCat
  split_ifs with hlen
  · exact h
  · have h1 := h.start_le
    have h2 := h.fill_le
    exact ⟨h1.trans (Nat.le_add_right _ _), show m.fill + buf.length ≤ m.len by omega⟩

theorem drainRounds_wf (until' : ℤ) (n : ℕ) {m : Mbuf} (h : m.Wf) (k : Kernel) :
    (drainRounds until' n m k).1.Wf := by
  induction n generalizing m k with
  | zero => exact h
  | succ n ih =>
    have hround := drainRound_safe until' h k
    unfold drainRounds
    cases hr : drainRound until' m k with
    | error r => rw [hr] at hround; exact hround.wf
    | ok r => rw [hr] at hround; exact ih hround.wf _

/-- A buffer that is in order stays in order. -/
theorem Operation.after_wf {m : Mbuf} (h : m.Wf) (k : Kernel) (op : Operation) : (op.after m k).1.Wf := by
  cases op with
  | cat buf => exact pgrMbufCat_wf h buf
  | recv => exact (pgrMbufRecv_safe h k).wf
  | send => exact (pgrMbufSend_safe h k).wf
  | resend => exact (pgrMbufResend_safe h k).1.wf
  | relay => exact (pgrMbufRelay_safe h k).wf
  | discard => exact (pgrMbufDiscard_safe h k).wf
  | drain until' n => exact drainRounds_wf until' n h k
  | setfd infd outfd => exact pgrMbufSetfd_wf h infd outfd
  | reset => exact ⟨le_rfl, Nat.zero_le _⟩

/-- What is done with it is within bounds. -/
theorem Operation.uses_within {m : Mbuf} (h : m.Wf) (k : Kernel) (op : Operation) : Within m.len (op.uses m k) := by
  cases op with
  | cat buf => exact catTraced_within h buf
  | recv => exact recvTraced_within h k
  | send => exact sendTraced_within h k
  | resend => exact resendTraced_within h k
  | relay => exact relayTraced_within h k
  | discard => exact discardTraced_within h k
  | drain until' n => exact drainTraced_within until' n h k
  | setfd infd outfd => exact within_nil _
  | reset => exact within_nil _

/-- **A buffer is in order when it is new, and after every operation, and all that an operation
does with its octets is within bounds.** -/
theorem representation (len : ℕ) :
    (pgrMbufNew len).start ≤ (pgrMbufNew len).fill ∧ (pgrMbufNew len).fill ≤ (pgrMbufNew len).len ∧
      ∀ (m : Mbuf), m.start ≤ m.fill → m.fill ≤ m.len → ∀ (k : Kernel) (op : Operation),
        (op.after m k).1.start ≤ (op.after m k).1.fill ∧ (op.after m k).1.fill ≤ (op.after m k).1.len ∧
          (op.traced m k).result = op.after m k ∧ ∀ u ∈ op.uses m k, u.Ok m.len := by
  refine ⟨(pgrMbufNew_wf len).start_le, (pgrMbufNew_wf len).fill_le, fun m h1 h2 k op => ?_⟩
  have hwf := op.after_wf ⟨h1, h2⟩ k
  exact ⟨hwf.start_le, hwf.fill_le, op.traced_result m k, op.uses_within ⟨h1, h2⟩ k⟩

/-- A new buffer of 16 octets, a message having been received and relayed. -/
theorem representation_new :
    let m := (pgrMbufRecv (pgrMbufNew 16) (.eager fun _ => [0x51, 0, 0, 0, 12, 0x41])).2.1
    (Operation.relay.after m (.eager fun _ => [])).1.start ≤ (Operation.relay.after m (.eager fun _ => [])).1.fill ∧
      ∀ u ∈ Operation.relay.uses m (.eager fun _ => []), u.Ok 16 := by
  intro m
  have hm : m.start ≤ m.fill ∧ m.fill ≤ m.len ∧ m.len = 16 := by decide +kernel
  obtain ⟨-, -, h⟩ := representation 16
  obtain ⟨hstart, -, -, huses⟩ := h m hm.1 hm.2.1 (.eager fun _ => []) .relay
  exact ⟨hstart, hm.2.2 ▸ huses⟩

end PgRouter.Wire
