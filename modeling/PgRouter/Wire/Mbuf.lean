import PgRouter.Foundation.Memory
import PgRouter.Wire.Kernel

/-!
# Message buffers

The functions of `msg.c`. An `MBUF` is a buffer of `len` octets, of which
`buf[start..fill)` have been read and not yet passed on; `buf[0..start)` have been
passed on by `pgr_mbuf_send` and are kept for `pgr_mbuf_resend`. Once a message has
not fit, what has been sent is kept in a temporary file, the cache, instead.

## The model

Each function is translated with its loops. A function of the source that calls
`read` or `write` takes the kernel and returns it with its result and the buffer; a
`return` from inside a loop is an `Except.error` carrying what is returned. `buf` is a
memory, so that the octets behind `fill`, which some functions look at, are there;
`unsigned` and `size_t` quantities are natural numbers, with the conversions of `u16`,
`u32`, `pgr_mbuf_msglength` and `pgr_mbuf_data` written out, and a `char` is the signed
value of its octet. The cache is modelled as the file itself and not as a descriptor, since no
other part of the program knows its descriptor.
-/

namespace PgRouter.Wire

open Foundation

/-- Leave the descriptor as it is. -/
def MBUF_SAME_FD : Fd := -2

/-- No descriptor. -/
def MBUF_NO_FD : Fd := -1

/-- `MSG_STARTUP`: an untyped message that is a StartupMessage. -/
def MSG_STARTUP : ℤ := 1

/-- `MSG_SSLREQ`: an untyped message that is an SSLRequest. -/
def MSG_SSLREQ : ℤ := 2

/-- `MSG_CANCEL`: an untyped message that is a CancelRequest. -/
def MSG_CANCEL : ℤ := 3

/-- A `char` constant. -/
def chr (c : Char) : ℤ := c.toNat

/-- A temporary file and its offset. -/
structure File where
  /-- What the file contains. -/
  octets : List Octet
  /-- Where the next `read` or `write` starts. -/
  offset : ℕ

/-- `d` is written to the file. -/
def File.write (f : File) (d : List Octet) : File :=
  ⟨f.octets.take f.offset ++ d ++ f.octets.drop (f.offset + d.length), f.offset + d.length⟩

/-- A `read` of the file, of at most `n` octets. -/
def File.read (f : File) (k : Kernel) (n : ℕ) : Option (List Octet) × File × Kernel :=
  match k.fileReads.head with
  | .fail => (none, f, { k with fileReads := k.fileReads.tail })
  | .upto c =>
    let got := (f.octets.drop f.offset).take (min n (max 1 c))
    (some got, { f with offset := f.offset + got.length }, { k with fileReads := k.fileReads.tail })

/-- `MBUF`. -/
structure Mbuf where
  /-- File descriptor to read from. -/
  infd : Fd
  /-- File descriptor to write to. -/
  outfd : Fd
  /-- Cache file (overflow), if there is one. -/
  cache : Option File
  /-- Offset of next available message. -/
  start : ℕ
  /-- Offset for next read/write op. -/
  fill : ℕ
  /-- Total length of allocated buffer. -/
  len : ℕ
  /-- The buffer. -/
  buf : ℕ → Octet

/-- What a function on an `MBUF` leaves: its return value, the buffer, the kernel. -/
abbrev Outcome := ℤ × Mbuf × Kernel

/-! ### Octets of the buffer -/

/-- The macro `available`. -/
def Mbuf.available (m : Mbuf) : ℕ := m.fill - m.start

/-- The octets `available` counts. -/
def Mbuf.window (m : Mbuf) : List Octet := slice m.buf m.start m.fill

/-- The macro `u16`, at address `i`. -/
def u16 (b : ℕ → Octet) (i : ℕ) : ℕ := ((b i).toNat <<< 8) % 2 ^ 16 ||| (b (i + 1)).toNat

/-- The macro `u32`, at address `i`: the cast `(uint16_t)` is applied to the first
octet, shifted, only. -/
def u32 (b : ℕ → Octet) (i : ℕ) : ℕ :=
  ((b i).toNat <<< 24) % 2 ^ 16 ||| (b (i + 1)).toNat <<< 16 ||| (b (i + 2)).toNat <<< 8 |||
    (b (i + 3)).toNat

/-- `size`: the length of the current message, its type octet included. -/
def size (m : Mbuf) : ℕ :=
  if m.available < 5 then 0
  else if m.buf m.start = 0 then u32 m.buf m.start
  else u32 m.buf (m.start + 1) + 1

/-- `pgr_mbuf_msglength`: an `unsigned int`. -/
def pgrMbufMsglength (m : Mbuf) : ℕ :=
  if m.available < 5 then 0
  else if m.buf m.start = 0 then (u32 m.buf m.start + 2 ^ 32 - 4) % 2 ^ 32
  else (u32 m.buf (m.start + 1) + 2 ^ 32 - 4) % 2 ^ 32

/-- `pgr_mbuf_msgtype`: a `char`. -/
def pgrMbufMsgtype (m : Mbuf) : ℤ :=
  if m.available = 0 then -1
  else if m.buf m.start = 0 then
    let len := pgrMbufMsglength m
    if len = 4 ∧ 8 ≤ m.available ∧ u16 m.buf (m.start + 4) = 1234 ∧ u16 m.buf (m.start + 6) = 5679 then
      MSG_SSLREQ
    else if len = 12 then MSG_CANCEL
    else if 5 ≤ len then MSG_STARTUP
    else -1
  else (m.buf m.start).toInt8.toInt

/-- `pgr_mbuf_data`: the address of the octets, or `none` for `NULL`. Its first test is
of an unsigned number for `< 0` and never holds. Its sums are of the type `size_t`. -/
def pgrMbufData (m : Mbuf) (at' len : ℕ) : Option ℕ :=
  let at' := (at' + ((if m.buf m.start = 0 then 0 else 1) + 4)) % 2 ^ 64
  if m.available < (at' + len) % 2 ^ 64 then none else some (m.start + at')

/-- The sums of `pgr_mbuf_data` do not wrap around, except near the greatest number of the type. -/
theorem pgrMbufData_eq {m : Mbuf} {at' len : ℕ} (h : at' + len < 2 ^ 64 - 5) :
    pgrMbufData m at' len = if m.available < at' + (if m.buf m.start = 0 then 0 else 1) + 4 + len then none
      else some (m.start + (at' + (if m.buf m.start = 0 then 0 else 1) + 4)) := by
  have hle : (if m.buf m.start = 0 then 0 else 1) ≤ 1 := by split <;> omega
  simp only [pgrMbufData, ← Nat.add_assoc at']
  rw [Nat.mod_eq_of_lt (by omega), Nat.mod_eq_of_lt (by omega)]

/-- `pgr_mbuf_u16`. -/
def pgrMbufU16 (m : Mbuf) (at' : ℕ) : ℤ :=
  match pgrMbufData m at' 2 with
  | none => -1
  | some x => u16 m.buf x

/-- `pgr_mbuf_u32`: it asks for two octets, and decodes four. -/
def pgrMbufU32 (m : Mbuf) (at' : ℕ) : ℤ :=
  match pgrMbufData m at' 2 with
  | none => -1
  | some x => u32 m.buf x

/-- `memcmp` of two equally long strings. -/
def memcmp : List Octet → List Octet → ℤ
  | a :: as, b :: bs => if a = b then memcmp as bs else (a.toNat : ℤ) - b.toNat
  | _, _ => 0

/-- The inner loop of `pgr_mbuf_iserror`: on to the next NUL, or to `fill`. -/
def skipField (m : Mbuf) (n : ℕ) : ℕ :=
  if n < m.fill ∧ m.buf n ≠ 0 then skipField m (n + 1) else n
termination_by m.fill - n

theorem le_skipField (m : Mbuf) (n : ℕ) : n ≤ skipField m n := by
  fun_induction skipField m n with
  | case1 n h ih => omega
  | case2 n h => omega

/-- The outer loop of `pgr_mbuf_iserror`, over the fields of an ErrorResponse. -/
def scanFields (m : Mbuf) (code : List Octet) (n : ℕ) : ℤ :=
  if n < m.fill then
    if m.buf n = 0 then 1
    else if (m.buf n).toNat = 'C'.toNat ∧ n + 6 < m.fill then memcmp (slice m.buf (n + 1) (n + 6)) code
    else scanFields m code (skipField m (n + 1) + 1)
  else 1
termination_by m.fill - n
decreasing_by have := le_skipField m (n + 1); omega

/-- `pgr_mbuf_iserror`: `0` when it is. -/
def pgrMbufIserror (m : Mbuf) (code : Option (List Octet)) : ℤ :=
  if pgrMbufMsgtype m ≠ chr 'E' then 1
  else match code with
    | none => 0
    | some code => scanFields m code (m.start + 5)

/-! ### Writing -/

/-- `writen`: what is accepted of the `len` octets at `buf`, and whether the last
`write` returned a positive number. The source does not move `buf` on after a short
write. (It is never called with `len = 0`.) -/
def writen (k : Kernel) (buf : List Octet) (len : ℕ) : Bool × List Octet × Kernel :=
  if len = 0 then (true, [], k)
  else match k.accept (buf.take len) with
    | (none, k') => (false, [], k')
    | (some got, k') =>
      if _hg : got = [] then (false, [], k')
      else
        let r := writen k' buf (len - got.length)
        (r.1, got ++ r.2.1, r.2.2)
termination_by len
decreasing_by have := List.length_pos_iff.mpr _hg; omega

/-- `writen` to a descriptor. -/
def writenTo (k : Kernel) (fd : Fd) (buf : List Octet) (len : ℕ) : Bool × Kernel :=
  let r := writen k buf len
  (r.1, r.2.2.emit fd r.2.1)

/-- `writen` to the cache. -/
def Mbuf.writenCache (m : Mbuf) (k : Kernel) (buf : List Octet) (len : ℕ) : Bool × Mbuf × Kernel :=
  let r := writen k buf len
  (r.1, { m with cache := m.cache.map fun f => f.write r.2.1 }, r.2.2)

/-- The loop `while (…) { n = write(fd, p, …); … p += n; }` of `pgr_sendn`,
`pgr_mbuf_relay` and `pgr_mbuf_resend`: whether all of `data` is written, and what
part of it is. -/
def writeLoop (k : Kernel) (fd : Fd) (data : List Octet) : Bool × List Octet × Kernel :=
  if _hd : data = [] then (true, [], k)
  else match k.write fd data with
    | (none, k') => (false, [], k')
    | (some got, k') =>
      if _hg : got = [] then (false, [], k')
      else
        let r := writeLoop k' fd (data.drop got.length)
        (r.1, got ++ r.2.1, r.2.2)
termination_by data.length
decreasing_by
  have h1 := List.length_pos_iff.mpr _hd
  have h2 := List.length_pos_iff.mpr _hg
  rw [List.length_drop]
  omega

/-- `writen` delivers nothing, and leaves the trace to its caller. -/
theorem writen_asked (k : Kernel) (buf : List Octet) (len : ℕ) : k.Asked (writen k buf len).2.2 := by
  fun_induction writen k buf len with
  | case1 => exact .refl _
  | case2 k len _ k' h => exact (k.accept_asked h).2
  | case3 k len _ k' h => exact (k.accept_asked h).2
  | case4 k len _ got k' h _ r ih => exact (k.accept_asked h).2.trans ih

theorem writenTo_unread (k : Kernel) (fd : Fd) (buf : List Octet) (len : ℕ) :
    (writenTo k fd buf len).2.unread = k.unread := (writen_asked k buf len).unread

theorem writeLoop_unread (k : Kernel) (fd : Fd) (data : List Octet) :
    (writeLoop k fd data).2.2.unread = k.unread := by
  fun_induction writeLoop k fd data with
  | case1 => rfl
  | case2 k data _ k' h => exact (k.write_wrote h).2.unread
  | case3 k data _ k' h => exact (k.write_wrote h).2.unread
  | case4 k data _ got k' h _ r ih => exact ih.trans (k.write_wrote h).2.unread

/-- `pgr_sendn`: `0` when all is written. -/
def pgrSendn (k : Kernel) (fd : Fd) (data : List Octet) : ℤ × Kernel :=
  let r := writeLoop k fd data
  (if r.1 then 0 else 1, r.2.2)

/-! ### Operations -/

/-- `pgr_mbuf_new`. -/
def pgrMbufNew (len : ℕ) : Mbuf :=
  ⟨MBUF_NO_FD, MBUF_NO_FD, none, 0, 0, len, fun _ => 0⟩

/-- `pgr_mbuf_setfd`. -/
def pgrMbufSetfd (m : Mbuf) (infd outfd : Fd) : Mbuf :=
  { m with
    infd := if infd ≠ MBUF_SAME_FD then infd else m.infd
    outfd := if outfd ≠ MBUF_SAME_FD then outfd else m.outfd }

/-- `pgr_mbuf_reset`. -/
def pgrMbufReset (m : Mbuf) : Mbuf := { m with start := 0, fill := 0, cache := none }

/-- The octets `d` arrive at `buf + fill`. -/
def Mbuf.put (m : Mbuf) (d : List Octet) : Mbuf :=
  { m with buf := blit m.buf m.fill d, fill := m.fill + d.length }

/-- `m->fill = m->start`: what is available is forgotten. -/
def Mbuf.empty (m : Mbuf) : Mbuf := { m with fill := m.start }

/-- `memmove(buf + start, buf + start + len, fill - start - len)` and `fill -= len`:
the first `len` octets available are forgotten. -/
def Mbuf.dropFront (m : Mbuf) (len : ℕ) : Mbuf :=
  { m with buf := blit m.buf m.start (slice m.buf (m.start + len) m.fill), fill := m.fill - len }

/-- `pgr_mbuf_cat`. -/
def pgrMbufCat (m : Mbuf) (buf : List Octet) : ℤ × Mbuf :=
  if m.len - m.fill < buf.length then (1, m) else (0, m.put buf)

/-- `pgr_mbuf_recv`. -/
def pgrMbufRecv (m : Mbuf) (k : Kernel) : Outcome :=
  if m.available < 5 then
    match _h : k.read m.infd (m.len - m.fill) with
    | (none, k') => (-1, m, k')
    | (some got, k') => if _hg : got = [] then (0, m, k') else pgrMbufRecv (m.put got) k'
  else (m.available, m, k)
termination_by (k.unread m.infd).length
decreasing_by exact (k.read_got _h).unread_lt _hg

/-- The overflow branch of `pgr_mbuf_send`, "time to warm up the cache": what has been
sent moves from the buffer to a new cache. -/
def warmCache (m : Mbuf) (k : Kernel) : Except Outcome (Mbuf × Kernel) :=
  match m.cache with
  | some _ => .ok (m, k)
  | none =>
    let (opened, k) := k.tmpfile
    if ¬ opened then .error (1, m, k)
    else
      let m := { m with cache := some ⟨[], 0⟩ }
      if 0 < m.start then
        let (done, m, k) := m.writenCache k (slice m.buf 0 m.start) m.start
        if ¬ done then .error (1, m, k)
        else .ok ({ m with
          buf := blit m.buf 0 (slice m.buf m.start m.fill)
          fill := m.fill - m.start
          start := 0 }, k)
      else .ok (m, k)

/-- One round of the loop of `pgr_mbuf_send`, up to its `read`: what is available is
sent and cached. -/
def sendWindow (m : Mbuf) (k : Kernel) : Except Outcome (Bool × Mbuf × Kernel) :=
  match warmCache m k with
  | .error r => .error r
  | .ok (m, k) =>
    let (wrOk, k) := writenTo k m.outfd m.window m.available
    let (cacheOk, m, k) := m.writenCache k m.window m.available
    if ¬ cacheOk then .error (1, m, k) else .ok (wrOk, m, k)

theorem warmCache_infd {m m' : Mbuf} {k k' : Kernel} (h : warmCache m k = .ok (m', k')) :
    m'.infd = m.infd ∧ k'.unread = k.unread := by
  unfold warmCache at h
  split at h
  · cases h; exact ⟨rfl, rfl⟩
  · simp only at h
    split_ifs at h
    · cases h; exact ⟨rfl, (writen_asked _ _ _).unread⟩
    · cases h; exact ⟨rfl, rfl⟩

theorem sendWindow_infd {m m' : Mbuf} {k k' : Kernel} {wrOk : Bool}
    (h : sendWindow m k = .ok (wrOk, m', k')) : m'.infd = m.infd ∧ k'.unread = k.unread := by
  unfold sendWindow at h
  split at h
  · cases h
  · rename_i m₁ k₁ hc
    simp only at h
    split_ifs at h
    cases h
    refine ⟨(warmCache_infd hc).1, ?_⟩
    rw [← (warmCache_infd hc).2]
    exact (writen_asked _ _ _).unread.trans (writenTo_unread _ _ _ _)

/-- The loop of `pgr_mbuf_send`. -/
def sendLoop (len : ℕ) (wrOk : Bool) (m : Mbuf) (k : Kernel) :
    Except Outcome (ℕ × Bool × Mbuf × Kernel) :=
  if m.available < len then
    match _hw : sendWindow m k with
    | .error r => .error r
    | .ok (wrOk, m', k') =>
      match _hr : k'.read m'.infd (m'.len - m'.start) with
      | (none, k'') => .error (-1, m'.empty, k'')
      | (some got, k'') =>
        if _hg : got = [] then .error (0, m'.empty, k'')
        else sendLoop (len - m'.available) wrOk (m'.empty.put got) k''
  else .ok (len, wrOk, m, k)
termination_by (k.unread m.infd).length
decreasing_by
  have h := (k'.read_got _hr).unread_lt _hg
  rw [(sendWindow_infd _hw).2] at h
  rwa [show (m'.empty.put got).infd = m.infd from (sendWindow_infd _hw).1,
    ← (sendWindow_infd _hw).1]

/-- `pgr_mbuf_send` after its loop: the rest of the message, `len` octets, is available. -/
def sendRest (len : ℕ) (wrOk : Bool) (m : Mbuf) (k : Kernel) : Outcome :=
  if 0 < len then
    let w := slice m.buf m.start (m.start + len)
    let (wrOk, k) := writenTo k m.outfd w len
    match m.cache with
    | some _ =>
      let (cacheOk, m, k) := m.writenCache k w len
      if ¬ cacheOk then (1, m, k) else (if wrOk then 0 else 1, m.dropFront len, k)
    | none => (if wrOk then 0 else 1, { m with start := m.start + len }, k)
  else (if wrOk then 0 else 1, m, k)

/-- `pgr_mbuf_send`. -/
def pgrMbufSend (m : Mbuf) (k : Kernel) : Outcome :=
  if m.available < 5 then (1, m, k)
  else match sendLoop (size m) true m k with
    | .error r => r
    | .ok (len, wrOk, m, k) => sendRest len wrOk m k

/-- The loop of `pgr_mbuf_resend` over the cache, `offset` octets of which are left. -/
def resendCache (offset : ℕ) (f : File) (fd : Fd) (k : Kernel) : Bool × File × Kernel :=
  if 0 < offset then
    match f.read k 2048 with
    | (none, f', k') => (false, f', k')
    | (some block, f', k') =>
      if _hb : block = [] then (false, f', k')
      else
        let (done, k'') := writenTo k' fd block block.length
        if ¬ done then (false, f', k'') else resendCache (offset - block.length) f' fd k''
  else (true, f, k)
termination_by offset
decreasing_by have := List.length_pos_iff.mpr _hb; omega

/-- `pgr_mbuf_resend`. -/
def pgrMbufResend (m : Mbuf) (k : Kernel) : Outcome :=
  match m.cache with
  | some f =>
    let (done, f', k) := resendCache f.offset { f with offset := 0 } m.outfd k
    let m := { m with cache := some f' }
    if ¬ done then (1, m, k) else resendBuf m k
  | none => resendBuf m k
where
  /-- The second half of `pgr_mbuf_resend`: what is kept in the buffer. -/
  resendBuf (m : Mbuf) (k : Kernel) : Outcome :=
    let (done, w, k) := writeLoop k m.outfd (slice m.buf 0 m.start)
    (if done then 0 else 1, { m with start := w.length }, k)

/-- The loop `while (wr_ok && …) { n = write(…); wr_ok = (n > 0); … }` of
`pgr_mbuf_relay`. -/
def relayWrite (wrOk : Bool) (k : Kernel) (fd : Fd) (data : List Octet) : Bool × List Octet × Kernel :=
  if wrOk then writeLoop k fd data else (false, [], k)

theorem relayWrite_unread (wrOk : Bool) (k : Kernel) (fd : Fd) (data : List Octet) :
    (relayWrite wrOk k fd data).2.2.unread = k.unread := by
  cases wrOk
  · rfl
  · exact writeLoop_unread k fd data

/-- The loop of `pgr_mbuf_relay`. Its `len` is an `int`; no message is longer than
2^24 by `size`. -/
def relayLoop (len : ℕ) (wrOk : Bool) (m : Mbuf) (k : Kernel) :
    Except Outcome (ℕ × Bool × Mbuf × Kernel) :=
  if m.available < len then
    let r := relayWrite wrOk k m.outfd m.window
    match _hr : r.2.2.read m.infd (m.len - m.start) with
    | (none, k'') => .error (1, m.empty, k'')
    | (some got, k'') =>
      if _hg : got = [] then .error (1, m.empty, k'')
      else relayLoop (len - m.available) r.1 (m.empty.put got) k''
  else .ok (len, wrOk, m, k)
termination_by (k.unread m.infd).length
decreasing_by
  have h := (Kernel.read_got _hr).unread_lt _hg
  rwa [relayWrite_unread] at h

/-- `pgr_mbuf_relay` after its loop: the rest of the message, `len` octets, is available. -/
def relayRest (len : ℕ) (wrOk : Bool) (m : Mbuf) (k : Kernel) : Outcome :=
  if 0 < len then
    let r := relayWrite wrOk k m.outfd (slice m.buf m.start (m.start + len))
    (if r.1 then 0 else 1, m.dropFront len, r.2.2)
  else (if wrOk then 0 else 1, m, k)

/-- `pgr_mbuf_relay`. -/
def pgrMbufRelay (m : Mbuf) (k : Kernel) : Outcome :=
  if m.available < 5 then (1, m, k)
  else match relayLoop (size m) true m k with
    | .error r => r
    | .ok (len, wrOk, m, k) => relayRest len wrOk m k

/-- The loop of `pgr_mbuf_discard`. -/
def discardLoop (len : ℕ) (m : Mbuf) (k : Kernel) : Except Outcome (ℕ × Mbuf × Kernel) :=
  if m.available < len then
    match _hr : k.read m.infd (m.len - m.start) with
    | (none, k') => .error (-1, m.empty, k')
    | (some got, k') =>
      if _hg : got = [] then .error (0, m.empty, k')
      else discardLoop (len - m.available) (m.empty.put got) k'
  else .ok (len, m, k)
termination_by (k.unread m.infd).length
decreasing_by exact (k.read_got _hr).unread_lt _hg

/-- `pgr_mbuf_discard`. -/
def pgrMbufDiscard (m : Mbuf) (k : Kernel) : Outcome :=
  if m.available < 5 then (1, m, k)
  else match discardLoop (size m) m k with
    | .error r => r
    | .ok (len, m, k) => (0, if 0 < len then m.dropFront len else m, k)

/-- One round of the loop of `pgr_mbuf_drain`: `error` when it returns. The loop need
not end: at the end of the input, a message cut off within its first five octets is
found again in every round. -/
def drainRound (until' : ℤ) (m : Mbuf) (k : Kernel) : Except Outcome (Mbuf × Kernel) :=
  let type := pgrMbufMsgtype m
  if type < 0 then .error (-1, m, k)
  else
    let (_, m, k) := pgrMbufDiscard m k
    if type = until' then .error (0, m, k)
    else
      let (_, m, k) := pgrMbufRecv m k
      .ok (m, k)

end PgRouter.Wire
