import PgRouter.Wire.Pending

/-!
# What every operation keeps

Whatever the kernel does, short writes and failures included, an operation on a buffer
leaves it in order, with the same descriptors and of the same size, and reads from no other
descriptor than its own (`Safe`). The theorems of `Pending` say more of those operations
that write to the cache only where every `write` accepts all; this module has what can be
said of them without that.
-/

namespace PgRouter.Wire

open Foundation

/-- The buffer is in order and has the same descriptors and size, and nothing has been read
from another descriptor. -/
structure Safe (m : Mbuf) (k : Kernel) (m' : Mbuf) (k' : Kernel) : Prop where
  /-- The buffer is in order. -/
  wf : m'.Wf
  /-- The input descriptor is the same. -/
  infd : m'.infd = m.infd
  /-- The output descriptor is the same. -/
  outfd : m'.outfd = m.outfd
  /-- The buffer is of the same size. -/
  len : m'.len = m.len
  /-- Nothing has been read from another descriptor. -/
  other : ∀ fd ≠ m.infd, k'.unread fd = k.unread fd
  /-- It is later. -/
  follows : k.Follows k'

theorem Safe.refl {m : Mbuf} (h : m.Wf) (k : Kernel) : Safe m k m k :=
  ⟨h, rfl, rfl, rfl, fun _ _ => rfl, .refl k⟩

theorem Safe.trans {m m' m'' : Mbuf} {k k' k'' : Kernel} (h : Safe m k m' k') (h' : Safe m' k' m'' k'') :
    Safe m k m'' k'' :=
  ⟨h'.wf, h'.infd.trans h.infd, h'.outfd.trans h.outfd, h'.len.trans h.len,
    fun fd hfd => by rw [h'.other fd (h.infd ▸ hfd), h.other fd hfd], h.follows.trans h'.follows⟩

theorem Effect.safe {m m' : Mbuf} {k k' : Kernel} {u w : List Octet} (h : Effect m k u w m' k') : Safe m k m' k' :=
  ⟨h.wf, h.infd, h.outfd, h.len, h.other, h.follows⟩

/-- Writing touches no buffer. -/
theorem Safe.of_wrote {m : Mbuf} (h : m.Wf) {k k' : Kernel} {fd : Fd} {w : List Octet} (hw : k.Wrote fd w k') :
    Safe m k m k' :=
  ⟨h, rfl, rfl, rfl, fun _ _ => by rw [hw.unread], hw.follows⟩

theorem writenTo_wrote (k : Kernel) (fd : Fd) (buf : List Octet) (len : ℕ) :
    ∃ w, k.Wrote fd w (writenTo k fd buf len).2 :=
  ⟨_, ((writen_asked k buf len).wrote fd).trans (Kernel.emit_wrote _ _ _)⟩

/-- Writing to the cache touches nothing else. -/
theorem writenCache_safe {m : Mbuf} (h : m.Wf) (k : Kernel) (buf : List Octet) (len : ℕ) :
    Safe m k (m.writenCache k buf len).2.1 (m.writenCache k buf len).2.2 := by
  have hs := Safe.of_wrote h ((writen_asked k buf len).wrote 0)
  exact ⟨⟨h.1, h.2⟩, rfl, rfl, rfl, hs.other, hs.follows⟩

theorem empty_safe {m : Mbuf} (h : m.Wf) (k : Kernel) : Safe m k m.empty k := (effect_empty h k).safe

/-! ### pgr_mbuf_send -/

theorem warmCache_safe {m : Mbuf} (h : m.Wf) (k : Kernel) :
    match warmCache m k with
    | .error (_, m', k') => Safe m k m' k'
    | .ok (m', k') => Safe m k m' k' := by
  have ht := Safe.of_wrote h (k.tmpfile_asked.wrote 0)
  have hnew : Safe m k { m with cache := some ⟨[], 0⟩ } k.tmpfile.2 :=
    ⟨⟨h.1, h.2⟩, rfl, rfl, rfl, ht.other, ht.follows⟩
  have hc := writenCache_safe hnew.wf k.tmpfile.2 (slice m.buf 0 m.start) m.start
  have hs := hnew.trans hc
  unfold warmCache
  cases m.cache with
  | some f => exact .refl h k
  | none =>
    simp only
    split_ifs
    · exact ⟨⟨Nat.zero_le _, (Nat.sub_le _ _).trans hs.wf.fill_le⟩, hs.infd, hs.outfd, hs.len, hs.other, hs.follows⟩
    · exact hs
    · exact hnew
    · exact ht

theorem sendWindow_safe {m : Mbuf} (h : m.Wf) (k : Kernel) :
    match sendWindow m k with
    | .error (_, m', k') => Safe m k m' k'
    | .ok (_, m', k') => Safe m k m' k' := by
  have hwarm := warmCache_safe h k
  unfold sendWindow
  cases hr : warmCache m k with
  | error r => rw [hr] at hwarm; exact hwarm
  | ok r =>
    obtain ⟨m₁, k₁⟩ := r
    rw [hr] at hwarm
    obtain ⟨w, hto⟩ := writenTo_wrote k₁ m₁.outfd m₁.window m₁.available
    have hs := hwarm.trans (.of_wrote hwarm.wf hto)
    have hall := hs.trans (writenCache_safe hs.wf _ m₁.window m₁.available)
    simp only
    split_ifs
    · exact hall
    · exact hall

theorem sendLoop_safe (len : ℕ) (wrOk : Bool) {m : Mbuf} (h : m.Wf) (k : Kernel) :
    match sendLoop len wrOk m k with
    | .error (_, m', k') => Safe m k m' k'
    | .ok (len', _, m', k') => Safe m k m' k' ∧ len' ≤ m'.available := by
  fun_induction sendLoop len wrOk m k with
  | case1 len wrOk m k hlt r hwin =>
    have hs := sendWindow_safe h k
    rwa [hwin] at hs
  | case2 len wrOk m k hlt wrOk₁ m₁ k₁ hwin k₂ hread =>
    have hs := sendWindow_safe h k
    rw [hwin] at hs
    have hput := effect_put (empty_wf hs.wf) (k₁.read_got hread)
    rw [Option.getD_none, put_nil] at hput
    exact (hs.trans (empty_safe hs.wf k₁)).trans hput.safe
  | case3 len wrOk m k hlt wrOk₁ m₁ k₁ hwin k₂ hread =>
    have hs := sendWindow_safe h k
    rw [hwin] at hs
    have hput := effect_put (empty_wf hs.wf) (k₁.read_got hread)
    rw [Option.getD_some, put_nil] at hput
    exact (hs.trans (empty_safe hs.wf k₁)).trans hput.safe
  | case4 len wrOk m k hlt wrOk₁ m₁ k₁ hwin got k₂ hread hne ih =>
    have hs := sendWindow_safe h k
    rw [hwin] at hs
    have hgot : k₁.Got m₁.infd (m₁.len - m₁.start) got k₂ := k₁.read_got hread
    have hput := (hs.trans (empty_safe hs.wf k₁)).trans (effect_put (empty_wf hs.wf) hgot).safe
    have ih := ih hput.wf
    cases hres : sendLoop (len - m₁.available) wrOk₁ (m₁.empty.put got) k₂ with
    | error r => rw [hres] at ih; exact hput.trans ih
    | ok r => rw [hres] at ih; exact ⟨hput.trans ih.1, ih.2⟩
  | case5 len wrOk m k hge => exact ⟨.refl h k, by omega⟩

theorem dropFront_safe {m : Mbuf} (h : m.Wf) (k : Kernel) {len : ℕ} (hlen : len ≤ m.available) :
    Safe m k (m.dropFront len) k := (effect_dropFront h k hlen).safe

theorem sendRest_safe {len : ℕ} (wrOk : Bool) {m : Mbuf} (h : m.Wf) (k : Kernel) (hlen : len ≤ m.available) :
    Safe m k (sendRest len wrOk m k).2.1 (sendRest len wrOk m k).2.2 := by
  obtain ⟨w, hto⟩ := writenTo_wrote k m.outfd (slice m.buf m.start (m.start + len)) len
  have hs := Safe.of_wrote h hto
  unfold sendRest
  split
  · cases m.cache with
    | none =>
      have hle : m.start + len ≤ m.fill := by have := h.start_le; unfold Mbuf.available at hlen; omega
      exact ⟨⟨hle, h.fill_le⟩, rfl, rfl, rfl, hs.other, hs.follows⟩
    | some f =>
      have hc := writenCache_safe h (writenTo k m.outfd (slice m.buf m.start (m.start + len)) len).2
        (slice m.buf m.start (m.start + len)) len
      have hdrop := fun k' => dropFront_safe hc.wf k' (show len ≤ _ from hlen)
      simp only
      split
      · exact hs.trans hc
      · exact (hs.trans hc).trans (hdrop _)
  · exact .refl h k

/-- `pgr_mbuf_send` is safe. -/
theorem pgrMbufSend_safe {m : Mbuf} (h : m.Wf) (k : Kernel) :
    Safe m k (pgrMbufSend m k).2.1 (pgrMbufSend m k).2.2 := by
  have hloop := sendLoop_safe (size m) true h k
  unfold pgrMbufSend
  split
  · exact .refl h k
  · cases hres : sendLoop (size m) true m k with
    | error r => rw [hres] at hloop; exact hloop
    | ok r =>
      rw [hres] at hloop
      exact hloop.1.trans (sendRest_safe _ hloop.1.wf _ hloop.2)

/-! ### The other operations -/

theorem pgrMbufRecv_safe {m : Mbuf} (h : m.Wf) (k : Kernel) :
    Safe m k (pgrMbufRecv m k).2.1 (pgrMbufRecv m k).2.2 := (pgrMbufRecv_spec h k rfl).1.safe

theorem pgrMbufRelay_safe {m : Mbuf} (h : m.Wf) (k : Kernel) :
    Safe m k (pgrMbufRelay m k).2.1 (pgrMbufRelay m k).2.2 := by
  by_cases hav : 5 ≤ m.available
  · obtain ⟨u, w, he, -⟩ := pgrMbufRelay_spec h hav (k := k) rfl
    exact he.safe
  · rw [pgrMbufRelay_short (by omega)]
    exact .refl h k

theorem pgrMbufDiscard_safe {m : Mbuf} (h : m.Wf) (k : Kernel) :
    Safe m k (pgrMbufDiscard m k).2.1 (pgrMbufDiscard m k).2.2 := by
  by_cases hav : 5 ≤ m.available
  · obtain ⟨u, he, -⟩ := pgrMbufDiscard_spec h hav (k := k) rfl
    exact he.safe
  · rw [pgrMbufDiscard_short (by omega)]
    exact .refl h k

/-- A round of `pgr_mbuf_drain` is safe. -/
theorem drainRound_safe (until' : ℤ) {m : Mbuf} (h : m.Wf) (k : Kernel) :
    match drainRound until' m k with
    | .error (_, m', k') => Safe m k m' k'
    | .ok (m', k') => Safe m k m' k' := by
  have hd := pgrMbufDiscard_safe h k
  have hr := hd.trans (pgrMbufRecv_safe hd.wf _)
  unfold drainRound
  simp only
  split_ifs
  · exact .refl h k
  · exact hd
  · exact hr

theorem resendCache_wrote (offset : ℕ) (f : File) (fd : Fd) (k : Kernel) :
    ∃ w, k.Wrote fd w (resendCache offset f fd k).2.2 := by
  have hread : ∀ {f : File} {k : Kernel} {r}, f.read k 2048 = r → k.Wrote fd [] r.2.2 := by
    rintro f k r rfl
    unfold File.read
    split <;> exact ⟨rfl, by simp, fun _ => List.suffix_rfl, List.prefix_rfl, ⟨0, rfl⟩, ⟨0, rfl⟩, ⟨0, rfl⟩, ⟨1, rfl⟩⟩
  fun_induction resendCache offset f fd k with
  | case1 offset f k h0 f' k' hr => exact ⟨_, hread hr⟩
  | case2 offset f k h0 f' k' hr => exact ⟨_, hread hr⟩
  | case3 offset f k h0 block f' k' hr hb done k'' hto hdone =>
    obtain ⟨w, hw⟩ := writenTo_wrote k' fd block block.length
    rw [hto] at hw
    exact ⟨_, (hread hr).trans hw⟩
  | case4 offset f k h0 block f' k' hr hb done k'' hto hdone ih =>
    obtain ⟨w, hw⟩ := writenTo_wrote k' fd block block.length
    obtain ⟨w', hw'⟩ := ih
    rw [hto] at hw
    exact ⟨_, ((hread hr).trans hw).trans hw'⟩
  | case5 offset f k h0 => exact ⟨_, (Kernel.Asked.refl k).wrote fd⟩

/-- `pgr_mbuf_resend` is safe, and only writes. -/
theorem pgrMbufResend_safe {m : Mbuf} (h : m.Wf) (k : Kernel) :
    Safe m k (pgrMbufResend m k).2.1 (pgrMbufResend m k).2.2 ∧
      ∃ w, k.Wrote m.outfd w (pgrMbufResend m k).2.2 := by
  have hbuf : ∀ {m : Mbuf} (_ : m.Wf) (k : Kernel),
      Safe m k (pgrMbufResend.resendBuf m k).2.1 (pgrMbufResend.resendBuf m k).2.2 ∧
        ∃ w, k.Wrote m.outfd w (pgrMbufResend.resendBuf m k).2.2 := by
    intro m h k
    obtain ⟨hp, -, hw⟩ := writeLoop_spec k m.outfd (slice m.buf 0 m.start)
    have hs := Safe.of_wrote h hw
    have hle : (writeLoop k m.outfd (slice m.buf 0 m.start)).2.1.length ≤ m.start := by
      have := hp.length_le
      rwa [length_slice] at this
    exact ⟨⟨⟨hle.trans h.start_le, h.fill_le⟩, rfl, rfl, rfl, hs.other, hs.follows⟩, _, hw⟩
  unfold pgrMbufResend
  cases hc : m.cache with
  | none => exact hbuf h k
  | some f =>
    obtain ⟨w, hw⟩ := resendCache_wrote f.offset { f with offset := 0 } m.outfd k
    have hs := Safe.of_wrote h hw
    have hs' : Safe m k { m with cache := some (resendCache f.offset { f with offset := 0 } m.outfd k).2.1 }
        (resendCache f.offset { f with offset := 0 } m.outfd k).2.2 :=
      ⟨⟨h.1, h.2⟩, rfl, rfl, rfl, hs.other, hs.follows⟩
    obtain ⟨hb, w', hw'⟩ := hbuf hs'.wf (resendCache f.offset { f with offset := 0 } m.outfd k).2.2
    simp only
    split
    · exact ⟨hs', w, hw⟩
    · exact ⟨hs'.trans hb, _, hw.trans hw'⟩

end PgRouter.Wire
