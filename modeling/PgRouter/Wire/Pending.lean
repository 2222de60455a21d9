import PgRouter.Wire.Mbuf

/-!
# What the operations do to the pending stream

Of an `MBUF` and the kernel only one thing matters for what will be passed on: the
octets read and not yet passed on, followed by those not yet read. This is the
*pending stream*. The functions of `msg.c` move along it; how it happens to be divided
between the buffer and the descriptor is the kernel's choice.

`Effect m k used w m' k'` says what an operation has done in these terms: `used` has
gone from the pending stream, `w` has been written to `outfd`, and nothing else has been
read or written. `Kept m m'` says that it left alone what `pgr_mbuf_resend` resends. Each
function has one theorem, `pgrMbuf…_spec`, that says which octets these are.
-/

namespace PgRouter.Wire

open Foundation

/-- `start <= fill <= len`. -/
structure Mbuf.Wf (m : Mbuf) : Prop where
  start_le : m.start ≤ m.fill
  fill_le : m.fill ≤ m.len

theorem pgrMbufSetfd_wf {m : Mbuf} (h : m.Wf) (infd outfd : Fd) : (pgrMbufSetfd m infd outfd).Wf := ⟨h.1, h.2⟩

/-- The pending stream: what is available, and what is still to be read. -/
def pending (m : Mbuf) (k : Kernel) : List Octet := m.window ++ k.unread m.infd

@[simp] theorem length_window (m : Mbuf) : m.window.length = m.available := length_slice _ _ _

theorem length_pending (m : Mbuf) (k : Kernel) :
    (pending m k).length = m.available + (k.unread m.infd).length := by
  rw [pending, List.length_append, length_window]

theorem available_le_pending (m : Mbuf) (k : Kernel) : m.available ≤ (pending m k).length := by
  rw [length_pending]; omega

/-- The available octets are the first of the pending ones. -/
theorem slice_eq_take_pending {m : Mbuf} (hm : m.Wf) (k : Kernel) {n : ℕ} (h : n ≤ m.available) :
    slice m.buf m.start (m.start + n) = (pending m k).take n := by
  have := hm.start_le
  unfold Mbuf.available at h
  rw [pending, List.take_append_of_le_length (by rw [length_window]; exact h), Mbuf.window,
    take_slice, min_eq_right (by omega)]

/-- What an operation on `m` has done: `used` has gone from the pending stream, and `w`
has been written. -/
structure Effect (m : Mbuf) (k : Kernel) (used w : List Octet) (m' : Mbuf) (k' : Kernel) : Prop where
  /-- The buffer is in order. -/
  wf : m'.Wf
  /-- The input descriptor is the same. -/
  infd : m'.infd = m.infd
  /-- The output descriptor is the same. -/
  outfd : m'.outfd = m.outfd
  /-- The buffer is of the same size. -/
  len : m'.len = m.len
  /-- `used` was the first of what was pending, and the rest is pending. -/
  pending : used ++ pending m' k' = pending m k
  /-- `w` has been written, and nothing else. -/
  sent : k'.sent = k.sent ++ w.map (Prod.mk m.outfd)
  /-- Nothing has been read from another descriptor. -/
  other : ∀ fd ≠ m.infd, k'.unread fd = k.unread fd
  /-- It is later. -/
  follows : k.Follows k'

theorem Effect.refl {m : Mbuf} (h : m.Wf) (k : Kernel) : Effect m k [] [] m k :=
  ⟨h, rfl, rfl, rfl, rfl, by simp, fun _ _ => rfl, .refl k⟩

theorem Effect.trans {m m' m'' : Mbuf} {k k' k'' : Kernel} {u u' w w' : List Octet}
    (h : Effect m k u w m' k') (h' : Effect m' k' u' w' m'' k'') :
    Effect m k (u ++ u') (w ++ w') m'' k'' where
  wf := h'.wf
  infd := h'.infd.trans h.infd
  outfd := h'.outfd.trans h.outfd
  len := h'.len.trans h.len
  pending := by rw [List.append_assoc, h'.pending, h.pending]
  sent := by rw [h'.sent, h.sent, h.outfd, List.map_append, List.append_assoc]
  other := fun fd hfd => by rw [h'.other fd (h.infd ▸ hfd), h.other fd hfd]
  follows := h.follows.trans h'.follows

theorem Effect.used_prefix {m m' : Mbuf} {k k' : Kernel} {u w : List Octet} (h : Effect m k u w m' k') :
    u <+: PgRouter.Wire.pending m k := ⟨_, h.pending⟩

/-- The octets used are a prefix of what was pending, so their number says which. -/
theorem Effect.used_eq_take {m m' : Mbuf} {k k' : Kernel} {u w : List Octet} (h : Effect m k u w m' k') :
    u = (PgRouter.Wire.pending m k).take u.length := List.prefix_iff_eq_take.mp h.used_prefix

theorem Effect.pending_eq {m m' : Mbuf} {k k' : Kernel} {u w : List Octet} (h : Effect m k u w m' k') :
    PgRouter.Wire.pending m' k' = (PgRouter.Wire.pending m k).drop u.length := by
  rw [← h.pending, List.drop_left]

/-- `w` has been written, without reading. -/
theorem Effect.of_wrote {m : Mbuf} (h : m.Wf) {k k' : Kernel} {w : List Octet}
    (hw : k.Wrote m.outfd w k') : Effect m k [] w m k' :=
  ⟨h, rfl, rfl, rfl, by simp [PgRouter.Wire.pending, hw.unread], hw.sent, fun _ _ => by rw [hw.unread],
    hw.follows⟩

/-- What `pgr_mbuf_send` keeps for `pgr_mbuf_resend` is untouched. -/
structure Kept (m m' : Mbuf) : Prop where
  /-- `start` is the same. -/
  start : m'.start = m.start
  /-- The cache is the same. -/
  cache : m'.cache = m.cache
  /-- The octets below `start` are the same. -/
  below : slice m'.buf 0 m.start = slice m.buf 0 m.start

theorem Kept.refl (m : Mbuf) : Kept m m := ⟨rfl, rfl, rfl⟩

theorem Kept.trans {m m' m'' : Mbuf} (h : Kept m m') (h' : Kept m' m'') : Kept m m'' :=
  ⟨h'.start.trans h.start, h'.cache.trans h.cache, by
    have hb := h'.below
    rw [h.start] at hb
    exact hb.trans h.below⟩

/-! ### Moving octets in the buffer -/

@[simp] theorem put_start (m : Mbuf) (d : List Octet) : (m.put d).start = m.start := rfl
@[simp] theorem put_infd (m : Mbuf) (d : List Octet) : (m.put d).infd = m.infd := rfl
@[simp] theorem put_len (m : Mbuf) (d : List Octet) : (m.put d).len = m.len := rfl
@[simp] theorem put_fill (m : Mbuf) (d : List Octet) : (m.put d).fill = m.fill + d.length := rfl

@[simp] theorem put_nil (m : Mbuf) : m.put [] = m := by simp [Mbuf.put]

theorem window_put {m : Mbuf} (h : m.Wf) (d : List Octet) : (m.put d).window = m.window ++ d :=
  slice_blit_extend m.buf d h.start_le

theorem kept_put {m : Mbuf} (h : m.Wf) (d : List Octet) : Kept m (m.put d) :=
  ⟨rfl, rfl, slice_blit_below m.buf d h.start_le⟩

/-- What is read is added to what is available. -/
theorem effect_put {m : Mbuf} (h : m.Wf) {k k' : Kernel} {d : List Octet}
    (hg : k.Got m.infd (m.len - m.fill) d k') : Effect m k [] [] (m.put d) k' where
  wf := ⟨Nat.le_add_right_of_le h.start_le, by have := hg.le; have := h.fill_le; simp; omega⟩
  infd := rfl
  outfd := rfl
  len := rfl
  pending := by
    rw [List.nil_append, pending, window_put h, put_infd, List.append_assoc, hg.split, ← pending]
  sent := by simp [hg.sent]
  other := hg.other
  follows := hg.follows

theorem empty_wf {m : Mbuf} (h : m.Wf) : m.empty.Wf := ⟨le_rfl, h.start_le.trans h.fill_le⟩

@[simp] theorem window_empty (m : Mbuf) : m.empty.window = [] := slice_self _ _

/-- `m->fill = m->start` after a read of the whole window. -/
theorem effect_empty {m : Mbuf} (h : m.Wf) (k : Kernel) : Effect m k m.window [] m.empty k :=
  ⟨empty_wf h, rfl, rfl, rfl, by simp only [pending, window_empty]; rfl, by simp, fun _ _ => rfl, .refl k⟩

theorem kept_empty (m : Mbuf) : Kept m m.empty := ⟨rfl, rfl, rfl⟩

/-- The first octets available are forgotten. -/
theorem window_dropFront {m : Mbuf} (h : m.Wf) {n : ℕ} (hn : n ≤ m.available) :
    (m.dropFront n).window = m.window.drop n := by
  have hn' : n ≤ m.fill - m.start := hn
  have := h.start_le
  rw [Mbuf.window, Mbuf.window, drop_slice]
  exact slice_blit_move m.buf (by simp only [Mbuf.dropFront]; omega)

theorem kept_dropFront (m : Mbuf) (n : ℕ) : Kept m (m.dropFront n) :=
  ⟨rfl, rfl, slice_blit_below m.buf _ le_rfl⟩

theorem effect_dropFront {m : Mbuf} (h : m.Wf) (k : Kernel) {n : ℕ} (hn : n ≤ m.available) :
    Effect m k ((pending m k).take n) [] (m.dropFront n) k where
  wf := ⟨by unfold Mbuf.available at hn; have := h.start_le; simp only [Mbuf.dropFront]; omega,
    (Nat.sub_le _ _).trans h.fill_le⟩
  infd := rfl
  outfd := rfl
  len := rfl
  pending := by
    have hlen : n ≤ m.window.length := by rw [length_window]; exact hn
    rw [pending, pending, window_dropFront h hn, List.take_append_of_le_length hlen, ← List.append_assoc,
      List.take_append_drop]
    rfl
  sent := by simp
  other := fun _ _ => rfl
  follows := .refl k

/-! ### pgr_mbuf_recv -/

/-- `pgr_mbuf_recv` adds to what is available, and stops short of five octets only at
the end of the input, when the buffer is full, or when a `read` fails. -/
theorem pgrMbufRecv_spec {m : Mbuf} (h : m.Wf) (k : Kernel) {rc : ℤ} {m' : Mbuf} {k' : Kernel}
    (hr : pgrMbufRecv m k = (rc, m', k')) :
    Effect m k [] [] m' k' ∧ Kept m m' ∧
      ((5 ≤ m'.available ∧ rc = m'.available) ∨
        (m'.available < 5 ∧ rc = 0 ∧ (m'.fill = m'.len ∨ k'.unread m'.infd = [])) ∨
        (m'.available < 5 ∧ rc = -1 ∧ ¬ k.ReadsOk)) := by
  fun_induction pgrMbufRecv m k with
  | case1 m k hlt k₁ hread =>
    cases hr
    exact ⟨by simpa using effect_put h (k.read_got hread), .refl _,
      .inr (.inr ⟨hlt, rfl, fun hok => Kernel.read_ne_none hok hread⟩)⟩
  | case2 m k hlt k₁ hread =>
    cases hr
    refine ⟨by simpa using effect_put h (k.read_got hread), .refl _, .inr (.inl ⟨hlt, rfl, ?_⟩)⟩
    rcases k.read_eof hread with h0 | h0
    · exact .inl (le_antisymm h.fill_le (by omega))
    · exact .inr (by have hs := (k.read_got hread).split; rw [h0] at hs; simpa using hs)
  | case3 m k hlt got k₁ hread hne ih =>
    have he := effect_put h (k.read_got hread)
    obtain ⟨he', hk', hrc⟩ := ih he.wf hr
    refine ⟨he.trans he', (kept_put h got).trans hk', hrc.imp id (.imp id fun ⟨h1, h2, h3⟩ => ⟨h1, h2, ?_⟩)⟩
    exact fun hok => h3 (he.follows.readsOk hok)
  | case4 m k hge =>
    cases hr
    exact ⟨.refl h _, .refl _, .inl ⟨by omega, rfl⟩⟩

/-! ### Writing -/

/-- Where every `write` accepts all, `writen` writes all. -/
theorem writen_of_writesAll {k : Kernel} (hw : k.WritesAll) (buf : List Octet) {len : ℕ}
    (hlen : len ≤ buf.length) :
    (writen k buf len).1 = true ∧ (writen k buf len).2.1 = buf.take len := by
  unfold writen
  by_cases h0 : len = 0
  · simp [h0]
  · have hne : buf.take len ≠ [] := fun h => by
      have := congrArg List.length h
      rw [List.length_take, List.length_nil] at this
      omega
    rw [if_neg h0, k.accept_of_writesAll hw]
    simp only [dif_neg hne]
    rw [List.length_take, min_eq_left hlen, Nat.sub_self, writen, if_pos rfl]
    simp

theorem writenTo_of_writesAll {k : Kernel} (hw : k.WritesAll) (fd : Fd) (buf : List Octet) {len : ℕ}
    (hlen : len ≤ buf.length) :
    (writenTo k fd buf len).1 = true ∧ k.Wrote fd (buf.take len) (writenTo k fd buf len).2 := by
  obtain ⟨h1, h2⟩ := writen_of_writesAll hw buf hlen
  refine ⟨h1, ?_⟩
  rw [writenTo, h2]
  exact ((writen_asked k buf len).wrote fd).trans (Kernel.emit_wrote _ _ _)

/-- The loop of `write`s writes a prefix of its data: all of it, if it says so. -/
theorem writeLoop_spec (k : Kernel) (fd : Fd) (data : List Octet) :
    (writeLoop k fd data).2.1 <+: data ∧
      ((writeLoop k fd data).1 = true ↔ (writeLoop k fd data).2.1 = data) ∧
      k.Wrote fd (writeLoop k fd data).2.1 (writeLoop k fd data).2.2 := by
  fun_induction writeLoop k fd data with
  | case1 k => exact ⟨List.prefix_rfl, by simp, (Kernel.Asked.refl k).wrote fd⟩
  | case2 k data hd k' h => exact ⟨List.nil_prefix, by simpa using Ne.symm hd, (k.write_wrote h).2⟩
  | case3 k data hd k' h => exact ⟨List.nil_prefix, by simpa using Ne.symm hd, (k.write_wrote h).2⟩
  | case4 k data hd got k' h hg r ih =>
    obtain ⟨⟨rest, hrest⟩, hall, hwrote⟩ := ih
    obtain ⟨⟨tail, rfl⟩, hgot⟩ := k.write_wrote h
    have hr : r = writeLoop k' fd tail := by simp [r]
    simp only [Option.getD_some, List.drop_left] at hrest hall hwrote hgot ⊢
    rw [hr]
    refine ⟨⟨rest, by rw [List.append_assoc, hrest]⟩, ?_, hgot.trans hwrote⟩
    rw [hall, List.append_cancel_left_eq]

/-- Where every `write` accepts all, the loop writes all. -/
theorem writeLoop_of_writesAll {k : Kernel} (hw : k.WritesAll) (fd : Fd) (data : List Octet) :
    (writeLoop k fd data).1 = true := by
  have hwrite : k.write fd data = (some data, { k with writes := k.writes.tail }.emit fd data) := by
    rw [Kernel.write, k.accept_of_writesAll hw]
  unfold writeLoop
  by_cases hd : data = []
  · simp [hd]
  · rw [dif_neg hd, hwrite]
    simp only [dif_neg hd]
    rw [List.drop_length, writeLoop, dif_pos rfl]

/-! ### pgr_mbuf_send -/

/-- What `pgr_mbuf_resend` resends: the contents of the cache, and `buf[0..start)`. -/
def Mbuf.log (m : Mbuf) : List Octet := (m.cache.elim [] File.octets) ++ slice m.buf 0 m.start

/-- The cache, if there is one, is written at its end, and nothing is kept in the buffer
beside it. -/
def Mbuf.Cached (m : Mbuf) : Prop := ∀ f, m.cache = some f → f.offset = f.octets.length ∧ m.start = 0

theorem cached_of_none {m : Mbuf} (h : m.cache = none) : m.Cached := by
  intro f hf
  rw [h] at hf
  cases hf

theorem Kept.log {m m' : Mbuf} (h : Kept m m') : m'.log = m.log := by
  rw [Mbuf.log, Mbuf.log, h.cache, h.start, h.below]

theorem Kept.cached {m m' : Mbuf} (h : Kept m m') (hc : m.Cached) : m'.Cached := by
  intro f hf
  rw [h.cache] at hf
  rw [h.start]
  exact hc f hf

/-- `w` has gone from the pending stream to `outfd` and to the log. -/
structure Sent (m : Mbuf) (k : Kernel) (w : List Octet) (m' : Mbuf) (k' : Kernel) : Prop
    extends Effect m k w w m' k' where
  /-- `w` is logged. -/
  log : m'.log = m.log ++ w
  /-- The cache is in order. -/
  cached : m'.Cached

theorem Sent.refl {m : Mbuf} (h : m.Wf) (hc : m.Cached) (k : Kernel) : Sent m k [] m k :=
  ⟨.refl h k, by simp, hc⟩

theorem Sent.trans {m m' m'' : Mbuf} {k k' k'' : Kernel} {w w' : List Octet}
    (h : Sent m k w m' k') (h' : Sent m' k' w' m'' k'') : Sent m k (w ++ w') m'' k'' :=
  ⟨h.toEffect.trans h'.toEffect, by rw [h'.log, h.log, List.append_assoc], h'.cached⟩

theorem Sent.of_kept {m m' : Mbuf} {k k' : Kernel} (he : Effect m k [] [] m' k') (hk : Kept m m')
    (hc : m.Cached) : Sent m k [] m' k' := ⟨he, by rw [hk.log, List.append_nil], hk.cached hc⟩

theorem File.write_end {f : File} (h : f.offset = f.octets.length) (d : List Octet) :
    (f.write d).octets = f.octets ++ d ∧ (f.write d).offset = (f.write d).octets.length := by
  have hdrop : f.octets.drop (f.octets.length + d.length) = [] := List.drop_eq_nil_of_le (by omega)
  simp [File.write, h, hdrop]

/-- Where every `write` accepts all, `writen` to the cache adds what it is given. -/
theorem writenCache_spec {m : Mbuf} {k : Kernel} (hw : k.WritesAll) (buf : List Octet) {len : ℕ}
    (hlen : len ≤ buf.length) :
    ∃ k', k.Asked k' ∧
      m.writenCache k buf len = (true, { m with cache := m.cache.map fun f => f.write (buf.take len) }, k') := by
  obtain ⟨h1, h2⟩ := writen_of_writesAll hw buf hlen
  exact ⟨_, writen_asked k buf len, by rw [Mbuf.writenCache, h1, h2]⟩

/-- Warming up the cache sends nothing, and leaves the window and the log as they are.
It fails only when `tmpfile` does. -/
theorem warmCache_spec {m : Mbuf} (h : m.Wf) (hc : m.Cached) {k : Kernel} (hw : k.WritesAll) :
    match warmCache m k with
    | .error (rc, m', k') => rc = 1 ∧ ¬ k.DiskOk ∧ Sent m k [] m' k'
    | .ok (m', k') => Sent m k [] m' k' ∧ m'.window = m.window ∧ m'.cache.isSome := by
  cases hnone : m.cache with
  | some f =>
    have hr : warmCache m k = .ok (m, k) := by simp [warmCache, hnone]
    rw [hr]
    exact ⟨.refl h hc _, rfl, by rw [hnone]; rfl⟩
  | none =>
    have ht := k.tmpfile_asked
    obtain ⟨k₁, hk₁, hwc⟩ := writenCache_spec (m := { m with cache := some ⟨[], 0⟩ })
      (ht.follows.writesAll hw) (slice m.buf 0 m.start) (show m.start ≤ _ by simp)
    have htake : (slice m.buf 0 m.start).take m.start = slice m.buf 0 m.start :=
      List.take_of_length_le (by simp)
    rw [htake] at hwc
    simp only [warmCache, hnone, hwc, Option.map_some, not_true_eq_false, if_false]
    by_cases hopen : k.tmpfile.1 = true
    · simp only [hopen, not_true_eq_false, if_false]
      by_cases h0 : 0 < m.start
      · -- what has been sent is written to the cache, and the window moves down to `0`
        have hmove : slice (blit m.buf 0 (slice m.buf m.start m.fill)) 0 (m.fill - m.start) =
            slice m.buf m.start m.fill := slice_blit_move _ (by omega)
        rw [if_pos h0]
        refine ⟨⟨⟨⟨Nat.zero_le _, (Nat.sub_le _ _).trans h.fill_le⟩, rfl, rfl, rfl, ?_, ?_, ?_, ?_⟩,
          ?_, ?_⟩, hmove, rfl⟩
        · simp only [pending, Mbuf.window, List.nil_append, hmove, hk₁.unread, ht.unread]
        · simp [hk₁.sent, ht.sent]
        · exact fun _ _ => by rw [hk₁.unread, ht.unread]
        · exact ht.follows.trans hk₁.follows
        · simp [Mbuf.log, File.write, hnone]
        · intro f hf
          simp only [Option.some.injEq] at hf
          subst hf
          exact ⟨(File.write_end rfl _).2, rfl⟩
      · rw [if_neg h0]
        have he : Effect m k [] [] m k.tmpfile.2 := .of_wrote h (ht.wrote _)
        refine ⟨⟨⟨⟨h.1, h.2⟩, rfl, rfl, rfl, he.pending, he.sent, he.other, he.follows⟩, ?_, ?_⟩, rfl, rfl⟩
        · simp [Mbuf.log, hnone]
        · intro f hf
          simp only [Option.some.injEq] at hf
          subst hf
          exact ⟨rfl, by simpa using h0⟩
    · rw [if_pos (by simpa using hopen)]
      exact ⟨rfl, fun hd => hopen (hd.1 0), .of_kept (.of_wrote h (ht.wrote _)) (.refl m) hc⟩

/-- A round of the loop sends what is available. It fails only when `tmpfile` does. -/
theorem sendWindow_spec {m : Mbuf} (h : m.Wf) (hc : m.Cached) {k : Kernel} (hw : k.WritesAll) :
    match sendWindow m k with
    | .error (rc, m', k') => rc = 1 ∧ ¬ k.DiskOk ∧ Sent m k [] m' k'
    | .ok (wrOk, m', k') =>
      wrOk = true ∧ Sent m k m.window m'.empty k' ∧ m'.available = m.available ∧ m'.start = 0 ∧
        m'.cache.isSome := by
  have hwarm := warmCache_spec h hc hw
  unfold sendWindow
  cases hr : warmCache m k with
  | error r => rw [hr] at hwarm; exact hwarm
  | ok r =>
    obtain ⟨m₁, k₁⟩ := r
    rw [hr] at hwarm
    obtain ⟨hs, hwin, hcache⟩ := hwarm
    obtain ⟨f, hf⟩ := Option.isSome_iff_exists.mp hcache
    obtain ⟨hend, hstart⟩ := hs.cached f hf
    have hw₁ := hs.follows.writesAll hw
    have hlen : m₁.available ≤ m₁.window.length := (length_window m₁).ge
    have htake : m₁.window.take m₁.available = m₁.window := List.take_of_length_le (length_window m₁).le
    obtain ⟨hok, hto⟩ := writenTo_of_writesAll hw₁ m₁.outfd m₁.window hlen
    obtain ⟨k₃, hk₃, hwc⟩ := writenCache_spec (m := m₁) (hto.follows.writesAll hw₁) m₁.window hlen
    rw [htake] at hwc hto
    simp only [hwc, hok, not_true_eq_false, if_false, true_and]
    have hav : m₁.available = m.available := by rw [← length_window, hwin, length_window]
    refine ⟨?_, hav, hstart, by rw [hf]; rfl⟩
    -- what is written is the window, and `m->fill = m->start` takes it from the pending stream
    have he : Effect m₁ k₁ m₁.window m₁.window m₁.empty k₃ := by
      have := (Effect.of_wrote hs.wf (hto.trans (hk₃.wrote _))).trans (effect_empty hs.wf k₃)
      simpa using this
    have hsent : Sent m₁ k₁ m₁.window
        { m₁ with cache := m₁.cache.map fun f : File => f.write m₁.window }.empty k₃ := by
      refine ⟨⟨⟨he.wf.1, he.wf.2⟩, rfl, rfl, rfl, he.pending, he.sent, he.other, he.follows⟩, ?_, ?_⟩
      · simp [Mbuf.log, hf, hstart, (File.write_end hend m₁.window).1, Mbuf.empty]
      · intro g hg
        simp only [Mbuf.empty, hf, Option.map_some, Option.some.injEq] at hg
        subst hg
        exact ⟨(File.write_end hend _).2, hstart⟩
    have := hs.trans hsent
    rw [List.nil_append] at this
    rwa [← hwin]

/-- The loop sends windows until the rest of the message is available. It stops at the
end of the input, with everything sent, or when a `read` or the disk fails. -/
theorem sendLoop_spec (len : ℕ) (wrOk : Bool) {m : Mbuf} (h : m.Wf) (hc : m.Cached) (hlen : 0 < m.len)
    {k : Kernel} (hw : k.WritesAll) :
    match sendLoop len wrOk m k with
    | .error (rc, m', k') => ∃ w, Sent m k w m' k' ∧ w.length ≤ len ∧
        ((rc = 0 ∧ w = pending m k ∧ w.length < len) ∨ (rc ≠ 0 ∧ ¬ (k.ReadsOk ∧ k.DiskOk)))
    | .ok (len', wrOk', m', k') => ∃ w, Sent m k w m' k' ∧ w.length + len' = len ∧
        len' ≤ m'.available ∧ (wrOk = true → wrOk' = true) ∧
        (m.available < len → m'.cache.isSome) ∧ (len ≤ m.available → m' = m ∧ k' = k) := by
  fun_induction sendLoop len wrOk m k with
  | case1 len wrOk m k hlt r hwin =>
    have hs := sendWindow_spec h hc hw
    rw [hwin] at hs
    obtain ⟨hrc, hdisk, hsent⟩ := hs
    exact ⟨[], hsent, Nat.zero_le _, .inr ⟨by omega, fun hok => hdisk hok.2⟩⟩
  | case2 len wrOk m k hlt wrOk₁ m₁ k₁ hwin k₂ hread =>
    have hs := sendWindow_spec h hc hw
    rw [hwin] at hs
    obtain ⟨-, hsent, hav, -⟩ := hs
    have hread' := effect_put hsent.wf (k₁.read_got hread)
    refine ⟨m.window, ?_, by rw [length_window]; omega, .inr ⟨by decide, fun hok => ?_⟩⟩
    · simpa using hsent.trans (.of_kept (by simpa using hread') (.refl _) hsent.cached)
    · exact Kernel.read_ne_none (hsent.follows.readsOk hok.1) hread
  | case3 len wrOk m k hlt wrOk₁ m₁ k₁ hwin k₂ hread =>
    have hs := sendWindow_spec h hc hw
    rw [hwin] at hs
    obtain ⟨-, hsent, hav, hstart, -⟩ := hs
    have hread' := effect_put hsent.wf (k₁.read_got hread)
    have hall := hsent.trans (.of_kept (by simpa using hread') (.refl _) hsent.cached)
    rw [List.append_nil] at hall
    refine ⟨m.window, hall, by rw [length_window]; omega, .inl ⟨rfl, ?_, by rw [length_window]; omega⟩⟩
    -- the buffer has room, so nothing is left to be read
    have hroom : m₁.len - m₁.start ≠ 0 := by
      have hl : m₁.len = m.len := hsent.len
      omega
    have hend : k₂.unread m₁.infd = [] := by
      have := (k₁.read_got hread).split
      rw [(k₁.read_eof hread).resolve_left hroom] at this
      simpa using this
    have hp := hall.pending
    rw [pending, window_empty] at hp
    rw [← hp, show m₁.empty.infd = m₁.infd from rfl, hend, List.append_nil, List.append_nil]
  | case4 len wrOk m k hlt wrOk₁ m₁ k₁ hwin got k₂ hread hne ih =>
    have hs := sendWindow_spec h hc hw
    rw [hwin] at hs
    obtain ⟨rfl, hsent, hav, -, hcache⟩ := hs
    have hgot : k₁.Got m₁.infd (m₁.len - m₁.start) got k₂ := k₁.read_got hread
    have hput := Sent.of_kept (effect_put hsent.wf hgot) (kept_put hsent.wf got) hsent.cached
    have hall := hsent.trans hput
    rw [List.append_nil] at hall
    have hl : 0 < (m₁.empty.put got).len := hall.len ▸ hlen
    have ih := ih hput.wf hput.cached hl (hall.follows.writesAll hw)
    have hwl : m.window.length = m.available := length_window m
    cases hres : sendLoop (len - m₁.available) true (m₁.empty.put got) k₂ with
    | error r =>
      rw [hres] at ih
      obtain ⟨w, hsw, hle, hrc⟩ := ih
      refine ⟨m.window ++ w, hall.trans hsw, by rw [List.length_append]; omega, hrc.imp ?_ ?_⟩
      · rintro ⟨h0, hp, hlt'⟩
        exact ⟨h0, by rw [hp, hall.pending], by rw [List.length_append]; omega⟩
      · exact fun ⟨h0, hok⟩ => ⟨h0, fun hk => hok ⟨hall.follows.readsOk hk.1, hall.follows.diskOk hk.2⟩⟩
    | ok r =>
      rw [hres] at ih
      obtain ⟨w, hsw, hle, hav', hok, hover, hfit⟩ := ih
      refine ⟨m.window ++ w, hall.trans hsw, by rw [List.length_append]; omega, hav', fun _ => hok rfl,
        fun _ => ?_, fun hge => absurd hlt (by omega)⟩
      by_cases hlt' : (m₁.empty.put got).available < len - m₁.available
      · exact hover hlt'
      · rw [(hfit (by omega)).1]
        exact hcache
  | case5 len wrOk m k hge =>
    exact ⟨[], .refl h hc k, by simp, by omega, id, fun hlt => absurd hlt hge, fun _ => ⟨rfl, rfl⟩⟩

/-- Once the rest of the message is available, it is sent. -/
theorem sendRest_spec {m : Mbuf} (h : m.Wf) (hc : m.Cached) {k : Kernel} (hw : k.WritesAll) {len : ℕ}
    (hlen : len ≤ m.available) :
    ∃ m' k', sendRest len true m k = (0, m', k') ∧ Sent m k ((pending m k).take len) m' k' ∧
      (m.cache.isSome → m'.cache.isSome) ∧
      (m.cache = none → m'.cache = none ∧ m'.start = m.start + len ∧ m'.fill = m.fill ∧
        k'.unread = k.unread) := by
  by_cases h0 : 0 < len
  · have hlen' : len ≤ m.fill - m.start := hlen
    have hslice := slice_eq_take_pending h k hlen
    have hw' : len ≤ (slice m.buf m.start (m.start + len)).length := by simp
    have htake : (slice m.buf m.start (m.start + len)).take len = slice m.buf m.start (m.start + len) :=
      List.take_of_length_le (by simp)
    obtain ⟨hok, hto⟩ := writenTo_of_writesAll hw m.outfd (slice m.buf m.start (m.start + len)) hw'
    rw [htake] at hto
    cases hcache : m.cache with
    | some f =>
      obtain ⟨k₂, hk₂, hwc⟩ := writenCache_spec (m := m) (hto.follows.writesAll hw) _ hw'
      rw [htake] at hwc
      obtain ⟨hend, hstart⟩ := hc f hcache
      refine ⟨{ m with cache := some (f.write (slice m.buf m.start (m.start + len))) }.dropFront len, k₂,
        by simp [sendRest, h0, hok, hcache, hwc], ?_, fun _ => rfl, nofun⟩
      have he := (Effect.of_wrote h (hto.trans (hk₂.wrote _))).trans (effect_dropFront h k₂ hlen)
      have hp : pending m k₂ = pending m k := by simp [pending, hk₂.unread, hto.unread]
      rw [hp, hslice, List.append_nil, List.append_nil, List.nil_append] at he
      rw [← hslice] at he ⊢
      refine ⟨⟨⟨he.wf.1, he.wf.2⟩, rfl, rfl, rfl, he.pending, he.sent, he.other, he.follows⟩, ?_, ?_⟩
      · simp [Mbuf.log, hcache, hstart, Mbuf.dropFront, (File.write_end hend _).1]
      · intro g hg
        simp only [Mbuf.dropFront, Option.some.injEq] at hg
        subst hg
        exact ⟨(File.write_end hend _).2, hstart⟩
    | none =>
      refine ⟨{ m with start := m.start + len }, _, by simp [sendRest, h0, hok, hcache], ?_, nofun,
        fun _ => ⟨hcache, rfl, rfl, hto.unread⟩⟩
      have hsplit : slice m.buf m.start (m.start + len) ++ slice m.buf (m.start + len) m.fill =
          slice m.buf m.start m.fill := slice_append _ (by omega) (by omega)
      rw [← hslice]
      refine ⟨⟨⟨by have := h.start_le; simp only; omega, h.fill_le⟩, rfl, rfl, rfl, ?_, hto.sent,
        fun _ _ => by rw [hto.unread], hto.follows⟩, ?_, ?_⟩
      · simp only [pending, Mbuf.window, hto.unread]
        rw [← List.append_assoc, hsplit]
      · simp [Mbuf.log, hcache, slice_append]
      · intro f hf
        simp only [hcache] at hf
        cases hf
  · have h0' : len = 0 := by omega
    subst h0'
    exact ⟨m, k, by simp [sendRest], by simpa using Sent.refl h hc k, id, fun hn => ⟨hn, rfl, rfl, rfl⟩⟩

/-- **`pgr_mbuf_send`** passes on the first message of the pending stream, as `size`
measures it, or what there is of it when the input ends. It fails only when a `read` or
the disk does. -/
theorem pgrMbufSend_spec {m : Mbuf} (h : m.Wf) (hc : m.Cached) (hav : 5 ≤ m.available) {k : Kernel}
    (hw : k.WritesAll) {rc : ℤ} {m' : Mbuf} {k' : Kernel} (hr : pgrMbufSend m k = (rc, m', k')) :
    ∃ w, Sent m k w m' k' ∧ w.length ≤ size m ∧
      ((rc = 0 ∧ w = (pending m k).take (size m)) ∨ (rc ≠ 0 ∧ ¬ (k.ReadsOk ∧ k.DiskOk))) := by
  have hlen : 0 < m.len := by have := h.fill_le; unfold Mbuf.available at hav; omega
  have hloop := sendLoop_spec (size m) true h hc hlen hw
  unfold pgrMbufSend at hr
  rw [if_neg (by omega)] at hr
  cases hres : sendLoop (size m) true m k with
  | error r =>
    rw [hres] at hloop hr
    cases hr
    obtain ⟨w, hs, hle, hrc⟩ := hloop
    refine ⟨w, hs, hle, hrc.imp ?_ id⟩
    rintro ⟨h0, hp, hlt⟩
    exact ⟨h0, by rw [← hp, List.take_of_length_le hle]⟩
  | ok r =>
    obtain ⟨len, wrOk, m₁, k₁⟩ := r
    rw [hres] at hloop hr
    obtain ⟨w, hs, hle, hav', hok, -⟩ := hloop
    cases hok rfl
    obtain ⟨m₂, k₂, hrest, hs', -⟩ := sendRest_spec hs.wf hs.cached (hs.follows.writesAll hw) hav'
    simp only [hrest] at hr
    cases hr
    have hall := hs.trans hs'
    have hlen' : ((pending m₁ k₁).take len).length = len :=
      List.length_take_of_le (hav'.trans (available_le_pending _ _))
    refine ⟨_, hall, by rw [List.length_append]; omega, .inl ⟨rfl, ?_⟩⟩
    have hused := hall.used_eq_take
    rwa [List.length_append, hlen', hle] at hused

/-- With fewer than five octets available it does nothing. -/
theorem pgrMbufSend_short {m : Mbuf} {k : Kernel} (h : m.available < 5) : pgrMbufSend m k = (1, m, k) := if_pos h

/-! ### pgr_mbuf_relay -/

/-- Prefixes joined are the whole only if both are. -/
theorem append_eq_append_iff_of_prefix {u u' w w' : List Octet} (h : w <+: u) (h' : w' <+: u') :
    w ++ w' = u ++ u' ↔ w = u ∧ w' = u' := by
  refine ⟨fun heq => ?_, fun ⟨h1, h2⟩ => by rw [h1, h2]⟩
  have hlen := congrArg List.length heq
  rw [List.length_append, List.length_append] at hlen
  have := h.length_le
  have := h'.length_le
  exact ⟨h.eq_of_length (by omega), h'.eq_of_length (by omega)⟩

/-- `u` has gone from the pending stream and `w`, the beginning of `u`, to `outfd`. The
flags are `wr_ok` before and after: once a `write` has failed, nothing more is written. -/
structure Relayed (ok : Bool) (m : Mbuf) (k : Kernel) (u w : List Octet) (ok' : Bool) (m' : Mbuf)
    (k' : Kernel) : Prop extends Effect m k u w m' k', Kept m m' where
  /-- What is written is the beginning of what is used. -/
  written : w <+: u
  /-- `wr_ok` says whether it is all of it. -/
  ok_iff : ok' = true ↔ ok = true ∧ w = u
  /-- After a failure nothing is written. -/
  failed : ok = false → w = []
  /-- Where every `write` accepts all, all is written. -/
  whole : k.WritesAll → ok = true → w = u

theorem Relayed.trans {ok ok' ok'' : Bool} {m m' m'' : Mbuf} {k k' k'' : Kernel} {u u' w w' : List Octet}
    (h : Relayed ok m k u w ok' m' k') (h' : Relayed ok' m' k' u' w' ok'' m'' k'') :
    Relayed ok m k (u ++ u') (w ++ w') ok'' m'' k'' where
  toEffect := h.toEffect.trans h'.toEffect
  toKept := h.toKept.trans h'.toKept
  written := by
    cases hok : ok' with
    | true =>
      obtain ⟨-, rfl⟩ := h.ok_iff.mp hok
      exact (List.prefix_append_right_inj w).mpr h'.written
    | false =>
      rw [h'.failed hok, List.append_nil]
      exact h.written.trans (List.prefix_append u u')
  ok_iff := by
    rw [h'.ok_iff, h.ok_iff, append_eq_append_iff_of_prefix h.written h'.written, and_assoc]
  failed := fun hok => by
    have hok' : ok' = false := by
      rw [Bool.eq_false_iff]
      intro ht
      rw [(h.ok_iff.mp ht).1] at hok
      cases hok
    rw [h.failed hok, h'.failed hok', List.nil_append]
  whole := fun hall hok => by
    have hw := h.whole hall hok
    rw [hw, h'.whole (h.follows.writesAll hall) (h.ok_iff.mpr ⟨hok, hw⟩)]

/-- The write loop of a relay round, followed by what forgets the octets it was for. -/
theorem relayWrite_spec {m m' : Mbuf} (h : m.Wf) (hk : Kept m m') (wrOk : Bool) {k : Kernel} {u : List Octet}
    (hu : ∀ k' : Kernel, k'.unread = k.unread → Effect m k' u [] m' k') :
    ∃ w, Relayed wrOk m k u w (relayWrite wrOk k m.outfd u).1 m' (relayWrite wrOk k m.outfd u).2.2 := by
  cases wrOk with
  | false =>
    exact ⟨[], hu k rfl, hk, List.nil_prefix, by simp [relayWrite], fun _ => rfl, nofun⟩
  | true =>
    obtain ⟨hp, hok, hw⟩ := writeLoop_spec k m.outfd u
    have he := (Effect.of_wrote h hw).trans (hu _ hw.unread)
    rw [List.nil_append, List.append_nil] at he
    refine ⟨_, he, hk, hp, ?_, nofun, fun hall _ => hok.mp (writeLoop_of_writesAll hall _ _)⟩
    rw [relayWrite, if_pos rfl, hok]
    simp

/-- The loop uses windows until the rest of the message is available, writing them for
as long as writing succeeds. It stops at the end of the input or when a `read` fails. -/
theorem relayLoop_spec (len : ℕ) (wrOk : Bool) {m : Mbuf} (h : m.Wf) (hroom : m.start < m.len) {k : Kernel} :
    match relayLoop len wrOk m k with
    | .error (rc, m', k') => rc = 1 ∧ ∃ u w ok', Relayed wrOk m k u w ok' m' k' ∧ u.length < len ∧
        (k.ReadsOk → u = pending m k)
    | .ok (len', ok', m', k') => ∃ u w, Relayed wrOk m k u w ok' m' k' ∧ u.length + len' = len ∧
        len' ≤ m'.available := by
  have hround : ∀ {wrOk : Bool} {m : Mbuf} {k k' : Kernel} {got : List Octet}, m.Wf →
      Kernel.Got (relayWrite wrOk k m.outfd m.window).2.2 m.infd (m.len - m.start) got k' →
      ∃ w, Relayed wrOk m k m.window w (relayWrite wrOk k m.outfd m.window).1 (m.empty.put got) k' := by
    intro wrOk m k k' got h hgot
    obtain ⟨w, hr⟩ := relayWrite_spec h (kept_empty m) wrOk (k := k) fun k' _ => effect_empty h k'
    have he := hr.toEffect.trans (effect_put hr.wf hgot)
    rw [List.append_nil, List.append_nil] at he
    exact ⟨w, he, hr.toKept.trans (kept_put hr.wf got), hr.written, hr.ok_iff, hr.failed, hr.whole⟩
  fun_induction relayLoop len wrOk m k with
  | case1 len wrOk m k hlt r k₂ hread =>
    obtain ⟨w, hr⟩ := hround h (Kernel.read_got hread)
    rw [Option.getD_none, put_nil] at hr
    refine ⟨rfl, m.window, w, _, hr, by rw [length_window]; exact hlt, fun hok => ?_⟩
    have hok' : Kernel.ReadsOk r.2.2 :=
      (relayWrite_spec h (kept_empty m) wrOk fun k' _ => effect_empty h k').choose_spec.follows.readsOk hok
    exact absurd hread (Kernel.read_ne_none hok')
  | case2 len wrOk m k hlt r k₂ hread =>
    obtain ⟨w, hr⟩ := hround h (Kernel.read_got hread)
    rw [Option.getD_some, put_nil] at hr
    refine ⟨rfl, m.window, w, _, hr, by rw [length_window]; exact hlt, fun _ => ?_⟩
    -- the buffer has room, so nothing is left to be read
    have hend := (Kernel.read_eof hread).resolve_left (by omega)
    rw [relayWrite_unread] at hend
    rw [pending, hend, List.append_nil]
  | case3 len wrOk m k hlt r got k₂ hread hne ih =>
    obtain ⟨w, hr⟩ := hround h (Kernel.read_got hread)
    rw [Option.getD_some] at hr
    have hwl : m.window.length = m.available := length_window m
    have ih := ih hr.wf (by rw [hr.start, hr.len]; exact hroom)
    cases hres : relayLoop (len - m.available) r.1 (m.empty.put got) k₂ with
    | error r' =>
      rw [hres] at ih
      obtain ⟨hrc, u', w', ok', hr', hlt', hread'⟩ := ih
      refine ⟨hrc, _, _, ok', hr.trans hr', by rw [List.length_append]; omega, fun hok => ?_⟩
      rw [hread' (hr.follows.readsOk hok), hr.pending]
    | ok r' =>
      rw [hres] at ih
      obtain ⟨u', w', hr', hlen', hav'⟩ := ih
      exact ⟨_, _, hr.trans hr', by rw [List.length_append]; omega, hav'⟩
  | case4 len wrOk m k hge =>
    exact ⟨[], [], ⟨.refl h k, .refl m, List.prefix_rfl, by simp, fun _ => rfl, fun _ _ => rfl⟩, by simp,
      by omega⟩

/-- Once the rest of the message is available, it is written. -/
theorem relayRest_spec {m : Mbuf} (h : m.Wf) {len : ℕ} (hlen : len ≤ m.available) (wrOk : Bool) (k : Kernel) :
    ∃ u w ok' m' k', relayRest len wrOk m k = (if ok' = true then 0 else 1, m', k') ∧
      Relayed wrOk m k u w ok' m' k' ∧ u.length = len := by
  by_cases h0 : 0 < len
  · have hslice := fun k => slice_eq_take_pending h k hlen
    obtain ⟨w, hr⟩ := relayWrite_spec h (kept_dropFront m len) wrOk (k := k)
      (u := slice m.buf m.start (m.start + len)) fun k' _ => by
        rw [hslice k']
        exact effect_dropFront h k' hlen
    exact ⟨_, w, _, _, _, by rw [relayRest, if_pos h0], hr, by simp⟩
  · refine ⟨[], [], wrOk, m, k, by rw [relayRest, if_neg h0], ?_, by rw [List.length_nil]; omega⟩
    exact ⟨.refl h k, .refl m, List.prefix_rfl, by simp, fun _ => rfl, fun _ _ => rfl⟩

/-- **`pgr_mbuf_relay`** uses up the first message of the pending stream, or what there is
of it when the input ends, and writes a prefix of it. It returns `0` just when it has
written the message whole, and leaves what is kept for `pgr_mbuf_resend`. -/
theorem pgrMbufRelay_spec {m : Mbuf} (h : m.Wf) (hav : 5 ≤ m.available) {k : Kernel} {rc : ℤ} {m' : Mbuf}
    {k' : Kernel} (hr : pgrMbufRelay m k = (rc, m', k')) :
    ∃ u w, Effect m k u w m' k' ∧ Kept m m' ∧ w <+: u ∧ u.length ≤ size m ∧ (rc = 0 ∨ rc = 1) ∧
      (rc = 0 ↔ u.length = size m ∧ w = u) ∧ (k.ReadsOk → u = (pending m k).take (size m)) ∧
      (k.WritesAll → w = u) := by
  have hroom : m.start < m.len := by have := h.fill_le; unfold Mbuf.available at hav; omega
  have hloop := relayLoop_spec (size m) true h hroom (k := k)
  unfold pgrMbufRelay at hr
  rw [if_neg (by omega)] at hr
  cases hres : relayLoop (size m) true m k with
  | error r =>
    rw [hres] at hloop hr
    cases hr
    obtain ⟨hrc, u, w, ok', hrel, hlt, hread⟩ := hloop
    refine ⟨u, w, hrel.toEffect, hrel.toKept, hrel.written, hlt.le, .inr hrc, by omega, fun hok => ?_,
      fun hall => hrel.whole hall rfl⟩
    rw [← hread hok, List.take_of_length_le hlt.le]
  | ok r =>
    obtain ⟨len, wrOk, m₁, k₁⟩ := r
    rw [hres] at hloop hr
    obtain ⟨u, w, hrel, hle, hav'⟩ := hloop
    obtain ⟨u', w', ok', m₂, k₂, hrest, hrel', hlen'⟩ := relayRest_spec hrel.wf hav' wrOk k₁
    simp only [hrest] at hr
    cases hr
    have hall := hrel.trans hrel'
    have hlen : (u ++ u').length = size m := by rw [List.length_append]; omega
    refine ⟨_, _, hall.toEffect, hall.toKept, hall.written, hlen.le, by cases ok' <;> simp, ?_, fun _ => ?_,
      fun hw => hall.whole hw rfl⟩
    · have hok := hall.ok_iff
      cases ok' <;> simp_all
    · rw [← hlen]
      exact hall.used_eq_take

/-- With fewer than five octets available it does nothing. -/
theorem pgrMbufRelay_short {m : Mbuf} {k : Kernel} (h : m.available < 5) : pgrMbufRelay m k = (1, m, k) := if_pos h

/-- A message that is in the buffer as a whole is relayed without reading. -/
theorem pgrMbufRelay_unread {m : Mbuf} {k : Kernel} (h : size m ≤ m.available) :
    (pgrMbufRelay m k).2.2.unread = k.unread := by
  unfold pgrMbufRelay
  split_ifs
  · rfl
  · rw [relayLoop, if_neg (not_lt.mpr h)]
    by_cases h0 : 0 < size m
    · simp only [relayRest, if_pos h0]
      exact relayWrite_unread true k m.outfd _
    · simp only [relayRest, if_neg h0]

/-- It leaves what is kept for `pgr_mbuf_resend`. -/
theorem pgrMbufRelay_kept {m : Mbuf} (h : m.Wf) (k : Kernel) : Kept m (pgrMbufRelay m k).2.1 := by
  by_cases hav : 5 ≤ m.available
  · obtain ⟨u, w, -, hk, -⟩ := pgrMbufRelay_spec h hav (k := k) rfl
    exact hk
  · rw [pgrMbufRelay_short (by omega)]
    exact .refl m

/-! ### pgr_mbuf_discard -/

/-- The loop uses windows until the rest of the message is available. It stops at the
end of the input or when a `read` fails. -/
theorem discardLoop_spec (len : ℕ) {m : Mbuf} (h : m.Wf) (hroom : m.start < m.len) {k : Kernel} :
    match discardLoop len m k with
    | .error (rc, m', k') => ∃ u, Effect m k u [] m' k' ∧ Kept m m' ∧ u.length < len ∧
        (k.ReadsOk → rc = 0 ∧ u = pending m k)
    | .ok (len', m', k') => ∃ u, Effect m k u [] m' k' ∧ Kept m m' ∧ u.length + len' = len ∧
        len' ≤ m'.available := by
  have hround : ∀ {m : Mbuf} {k k' : Kernel} {got : List Octet}, m.Wf →
      k.Got m.infd (m.len - m.start) got k' → Effect m k m.window [] (m.empty.put got) k' := by
    intro m k k' got h hgot
    have he := effect_empty h k
    simpa using he.trans (effect_put he.wf hgot)
  fun_induction discardLoop len m k with
  | case1 len m k hlt k₁ hread =>
    have he := hround h (Kernel.read_got hread)
    rw [Option.getD_none, put_nil] at he
    exact ⟨m.window, he, kept_empty m, by rw [length_window]; exact hlt,
      fun hok => absurd hread (Kernel.read_ne_none hok)⟩
  | case2 len m k hlt k₁ hread =>
    have he := hround h (Kernel.read_got hread)
    rw [Option.getD_some, put_nil] at he
    refine ⟨m.window, he, kept_empty m, by rw [length_window]; exact hlt, fun _ => ⟨rfl, ?_⟩⟩
    rw [pending, (Kernel.read_eof hread).resolve_left (by omega), List.append_nil]
  | case3 len m k hlt got k₁ hread hne ih =>
    have he := hround h (Kernel.read_got hread)
    rw [Option.getD_some] at he
    have hk : Kept m (m.empty.put got) := (kept_empty m).trans (kept_put (empty_wf h) got)
    have hwl : m.window.length = m.available := length_window m
    have ih := ih he.wf hroom
    cases hres : discardLoop (len - m.available) (m.empty.put got) k₁ with
    | error r =>
      rw [hres] at ih
      obtain ⟨u, he', hk', hlt', hread'⟩ := ih
      refine ⟨_, he.trans he', hk.trans hk', by rw [List.length_append]; omega, fun hok => ?_⟩
      obtain ⟨hrc, hu⟩ := hread' (he.follows.readsOk hok)
      exact ⟨hrc, by rw [hu, he.pending]⟩
    | ok r =>
      rw [hres] at ih
      obtain ⟨u, he', hk', hlen', hav'⟩ := ih
      exact ⟨_, he.trans he', hk.trans hk', by rw [List.length_append]; omega, hav'⟩
  | case4 len m k hge => exact ⟨[], .refl h k, .refl m, by simp, by omega⟩

/-- Once the rest of the message is available, the whole of it is used up. -/
theorem pgrMbufDiscard_of_ok {m : Mbuf} (h : m.Wf) (hav : 5 ≤ m.available) {k : Kernel} {r : ℕ × Mbuf × Kernel}
    (hres : discardLoop (size m) m k = .ok r) :
    (pgrMbufDiscard m k).1 = 0 ∧ ∃ u, Effect m k u [] (pgrMbufDiscard m k).2.1 (pgrMbufDiscard m k).2.2 ∧
      Kept m (pgrMbufDiscard m k).2.1 ∧ u.length = size m := by
  have hroom : m.start < m.len := by have := h.fill_le; unfold Mbuf.available at hav; omega
  have hloop := discardLoop_spec (size m) h hroom (k := k)
  obtain ⟨len, m₁, k₁⟩ := r
  rw [hres] at hloop
  obtain ⟨u, he, hk, hlen, hav'⟩ := hloop
  have hrest : Effect m₁ k₁ ((pending m₁ k₁).take len) [] (if 0 < len then m₁.dropFront len else m₁) k₁ ∧
      Kept m₁ (if 0 < len then m₁.dropFront len else m₁) := by
    split
    · exact ⟨effect_dropFront he.wf k₁ hav', kept_dropFront m₁ len⟩
    · rw [show len = 0 by omega, List.take_zero]
      exact ⟨.refl he.wf k₁, .refl m₁⟩
  rw [pgrMbufDiscard, if_neg (by omega), hres]
  refine ⟨rfl, _, he.trans hrest.1, hk.trans hrest.2, ?_⟩
  rw [List.length_append, List.length_take_of_le (hav'.trans (available_le_pending _ _))]
  exact hlen

/-- **`pgr_mbuf_discard`** uses up the first message of the pending stream, or what there
is of it when the input ends, and leaves what is kept for `pgr_mbuf_resend`. -/
theorem pgrMbufDiscard_spec {m : Mbuf} (h : m.Wf) (hav : 5 ≤ m.available) {k : Kernel} {rc : ℤ} {m' : Mbuf}
    {k' : Kernel} (hr : pgrMbufDiscard m k = (rc, m', k')) :
    ∃ u, Effect m k u [] m' k' ∧ Kept m m' ∧ (k.ReadsOk → rc = 0 ∧ u = (pending m k).take (size m)) := by
  have hroom : m.start < m.len := by have := h.fill_le; unfold Mbuf.available at hav; omega
  have hloop := discardLoop_spec (size m) h hroom (k := k)
  cases hres : discardLoop (size m) m k with
  | error r =>
    unfold pgrMbufDiscard at hr
    rw [if_neg (by omega)] at hr
    rw [hres] at hloop hr
    cases hr
    obtain ⟨u, he, hk, hlt, hread⟩ := hloop
    refine ⟨u, he, hk, fun hok => ⟨(hread hok).1, ?_⟩⟩
    rw [← (hread hok).2, List.take_of_length_le hlt.le]
  | ok r =>
    obtain ⟨hrc, u, he, hk, hlen⟩ := pgrMbufDiscard_of_ok h hav hres
    rw [hr] at hrc he hk
    exact ⟨u, he, hk, fun _ => ⟨hrc, by rw [← hlen]; exact he.used_eq_take⟩⟩

/-- With fewer than five octets available it does nothing. -/
theorem pgrMbufDiscard_short {m : Mbuf} {k : Kernel} (h : m.available < 5) : pgrMbufDiscard m k = (1, m, k) :=
  if_pos h

/-! ### pgr_mbuf_resend -/

/-- A `read` of a file that does not fail delivers the next octets, at least one if
there is one. -/
theorem File.read_spec {f : File} {k : Kernel} (hd : k.DiskOk) (n : ℕ) :
    ∃ d k', f.read k n = (some d, { f with offset := f.offset + d.length }, k') ∧ k.Asked k' ∧
      d <+: f.octets.drop f.offset ∧ (d = [] → n = 0 ∨ f.octets.length ≤ f.offset) := by
  have hhead := hd.2 0
  unfold File.read
  cases hread : k.fileReads.head with
  | fail => exact absurd hread hhead
  | upto c =>
    refine ⟨_, _, rfl, ⟨rfl, rfl, fun _ => List.suffix_rfl, List.prefix_rfl, ⟨0, rfl⟩, ⟨0, rfl⟩, ⟨0, rfl⟩,
      ⟨1, rfl⟩⟩, List.take_prefix _ _, fun h => ?_⟩
    rcases List.take_eq_nil_iff.mp h with h0 | h0
    · exact .inl (by omega)
    · exact .inr (List.drop_eq_nil_iff.mp h0)

/-- The loop over the cache writes what is left of it. -/
theorem resendCache_spec {offset : ℕ} {f : File} (fd : Fd) {k : Kernel} (hd : k.DiskOk) (hw : k.WritesAll)
    (hoff : f.offset + offset = f.octets.length) :
    ∃ k', resendCache offset f fd k = (true, { f with offset := f.octets.length }, k') ∧
      k.Wrote fd (f.octets.drop f.offset) k' := by
  induction offset using Nat.strong_induction_on generalizing f k with
  | _ offset ih =>
    unfold resendCache
    by_cases h0 : 0 < offset
    · obtain ⟨d, k₁, hread, hk₁, hp, hne⟩ := File.read_spec (f := f) hd 2048
      have hd0 : d ≠ [] := fun h => by rcases hne h with h | h <;> omega
      have hdl := List.length_pos_iff.mpr hd0
      have hle := hp.length_le
      rw [List.length_drop] at hle
      obtain ⟨hok, hto⟩ := writenTo_of_writesAll (hk₁.follows.writesAll hw) fd d le_rfl
      rw [List.take_length] at hto
      have hfol := hk₁.follows.trans hto.follows
      obtain ⟨k₂, hrest, hw₂⟩ := ih (offset - d.length) (by omega)
        (f := { f with offset := f.offset + d.length }) (hfol.diskOk hd) (hfol.writesAll hw) (by simp only; omega)
      refine ⟨k₂, by simp [h0, hread, hd0, hok, hrest], ?_⟩
      obtain ⟨t, ht⟩ := hp
      have htail : f.octets.drop (f.offset + d.length) = t := by
        rw [← List.drop_drop, ← ht, List.drop_left]
      have := ((hk₁.wrote fd).trans hto).trans hw₂
      simpa only [List.nil_append, htail, ht] using this
    · have hend : f.offset = f.octets.length := by omega
      refine ⟨k, by simp [h0, ← hend], ?_⟩
      rw [hend, List.drop_length]
      exact (Kernel.Asked.refl k).wrote fd

/-- **`pgr_mbuf_resend`** writes the log, and leaves the log and the pending stream as they
are. -/
theorem pgrMbufResend_spec {m : Mbuf} (h : m.Wf) (hc : m.Cached) {k : Kernel} (hd : k.DiskOk)
    (hw : k.WritesAll) {rc : ℤ} {m' : Mbuf} {k' : Kernel} (hr : pgrMbufResend m k = (rc, m', k')) :
    rc = 0 ∧ m' = m ∧ Effect m k [] m.log m k' := by
  have hbuf : ∀ {k : Kernel}, k.WritesAll → ∃ k', pgrMbufResend.resendBuf m k = (0, m, k') ∧
      k.Wrote m.outfd (slice m.buf 0 m.start) k' := by
    intro k hw
    obtain ⟨-, hok, hwrote⟩ := writeLoop_spec k m.outfd (slice m.buf 0 m.start)
    have h1 := writeLoop_of_writesAll hw m.outfd (slice m.buf 0 m.start)
    rw [hok.mp h1] at hwrote
    exact ⟨_, by simp [pgrMbufResend.resendBuf, h1, hok.mp h1], hwrote⟩
  cases hcache : m.cache with
  | none =>
    obtain ⟨k₁, hres, hwrote⟩ := hbuf hw
    simp only [pgrMbufResend, hcache, hres] at hr
    cases hr
    refine ⟨rfl, rfl, ?_⟩
    rw [Mbuf.log, hcache]
    exact .of_wrote h hwrote
  | some f =>
    obtain ⟨hend, hstart⟩ := hc f hcache
    obtain ⟨k₁, hres, hwrote⟩ := resendCache_spec (f := { f with offset := 0 }) m.outfd hd hw
      (show 0 + f.offset = f.octets.length by omega)
    obtain ⟨k₂, hres₂, hwrote₂⟩ := hbuf (hwrote.follows.writesAll hw)
    have hf : ({ f with offset := f.octets.length } : File) = f := by rw [← hend]
    have hm : { m with cache := some f } = m := by rw [← hcache]
    simp only [pgrMbufResend, hcache, hres, hf, hm, hres₂, not_true_eq_false, if_false] at hr
    cases hr
    refine ⟨rfl, rfl, ?_⟩
    rw [Mbuf.log, hcache]
    exact .of_wrote h (hwrote.trans hwrote₂)

end PgRouter.Wire
