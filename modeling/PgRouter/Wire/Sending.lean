import PgRouter.Wire.Invariant

/-!
# Sending whatever the kernel does

`pgr_mbuf_send` writes to `outfd` and to the cache. `Pending` says what it does where every `write` accepts all;
this module has what is so in any case: it takes octets from the pending stream, whatever has become of the
`write`s, and the message is not stuck.

## What is proved

If `pgr_mbuf_send` returns `0` for a message whose size is not `0`, then some octets have gone from the pending
stream (`pgrMbufSend_effect`). An operation on a buffer writes to the buffer's own `outfd` and to no other
descriptor (`Kernel.WritesTo`).
-/

namespace PgRouter.Wire

open Foundation

/-! ### pgr_mbuf_send -/

/-- Writing to the cache takes nothing from the pending stream. -/
theorem writenCache_effect {m : Mbuf} (h : m.Wf) (k : Kernel) (buf : List Octet) (len : ℕ) :
    Effect m k [] [] (m.writenCache k buf len).2.1 (m.writenCache k buf len).2.2 := by
  have he := Effect.of_wrote h ((writen_asked k buf len).wrote m.outfd)
  exact ⟨⟨h.1, h.2⟩, rfl, rfl, rfl, he.pending, he.sent, he.other, he.follows⟩

theorem warmCache_effect {m : Mbuf} (h : m.Wf) (k : Kernel) :
    match warmCache m k with
    | .error (rc, m', k') => rc ≠ 0 ∧ Effect m k [] [] m' k'
    | .ok (m', k') => Effect m k [] [] m' k' ∧ m'.window = m.window := by
  have ht := Effect.of_wrote h (k.tmpfile_asked.wrote m.outfd)
  have hnew : Effect m k [] [] { m with cache := some ⟨[], 0⟩ } k.tmpfile.2 :=
    ⟨⟨h.1, h.2⟩, rfl, rfl, rfl, ht.pending, ht.sent, ht.other, ht.follows⟩
  have hs := hnew.trans (writenCache_effect hnew.wf k.tmpfile.2 (slice m.buf 0 m.start) m.start)
  unfold warmCache
  cases m.cache with
  | some f => exact ⟨.refl h k, rfl⟩
  | none =>
    simp only
    split_ifs
    · -- what is available moves to the front of the buffer
      have hmove : slice (blit m.buf 0 (slice m.buf m.start m.fill)) 0 (m.fill - m.start) = m.window :=
        slice_blit_move _ (by omega)
      refine ⟨⟨⟨Nat.zero_le _, (Nat.sub_le _ _).trans h.fill_le⟩, hs.infd, hs.outfd, hs.len, ?_, hs.sent,
        hs.other, hs.follows⟩, hmove⟩
      rw [← hs.pending]
      simp only [pending, List.nil_append]
      exact congrArg₂ (· ++ ·) hmove rfl
    · exact ⟨one_ne_zero, hs⟩
    · exact ⟨hnew, rfl⟩
    · exact ⟨one_ne_zero, ht⟩

/-- A round of the loop takes what is available, or fails. -/
theorem sendWindow_effect {m : Mbuf} (h : m.Wf) (k : Kernel) :
    match sendWindow m k with
    | .error (rc, m', k') => rc ≠ 0 ∧ ∃ w, Effect m k [] w m' k'
    | .ok (_, m', k') => (∃ w, Effect m k m.window w m'.empty k') ∧ m'.available = m.available := by
  have hwarm := warmCache_effect h k
  unfold sendWindow
  cases hr : warmCache m k with
  | error r =>
    rw [hr] at hwarm
    exact ⟨hwarm.1, [], hwarm.2⟩
  | ok r =>
    obtain ⟨m₁, k₁⟩ := r
    rw [hr] at hwarm
    obtain ⟨he, hwindow⟩ := hwarm
    have hwrote : k₁.Wrote m₁.outfd (writen k₁ m₁.window m₁.available).2.1
        (writenTo k₁ m₁.outfd m₁.window m₁.available).2 :=
      ((writen_asked k₁ m₁.window m₁.available).wrote m₁.outfd).trans (Kernel.emit_wrote _ _ _)
    have hto := he.trans (.of_wrote he.wf hwrote)
    have hall := hto.trans (writenCache_effect he.wf (writenTo k₁ m₁.outfd m₁.window m₁.available).2 m₁.window
      m₁.available)
    have hempty := hall.trans (effect_empty hall.wf _)
    rw [show (m₁.writenCache (writenTo k₁ m₁.outfd m₁.window m₁.available).2 m₁.window m₁.available).2.1.window =
      m.window from hwindow] at hempty
    have hav : m₁.available = m.available := by rw [← length_window, hwindow, length_window]
    simp only
    split_ifs
    · exact ⟨⟨_, hempty⟩, hav⟩
    · exact ⟨one_ne_zero, _, hall⟩

/-- The loop takes as much from the pending stream as it takes from the length, or else it fails, or gets to the end
of the input. -/
theorem sendLoop_effect (len : ℕ) (wrOk : Bool) {m : Mbuf} (h : m.Wf) (hav : 0 < m.available) (k : Kernel) :
    match sendLoop len wrOk m k with
    | .error (rc, m', k') => ∃ u w, Effect m k u w m' k' ∧ (rc = 0 → u ≠ [])
    | .ok (len', _, m', k') => ∃ u w, Effect m k u w m' k' ∧ u.length + len' = len ∧ len' ≤ m'.available := by
  have hne : m.window ≠ [] := List.ne_nil_of_length_pos (by rwa [length_window])
  fun_induction sendLoop len wrOk m k with
  | case1 len wrOk m k hlt r hwin =>
    have hs := sendWindow_effect h k
    rw [hwin] at hs
    obtain ⟨hrc, w, he⟩ := hs
    exact ⟨[], w, he, fun h0 => absurd h0 hrc⟩
  | case2 len wrOk m k hlt wrOk₁ m₁ k₁ hwin k₂ hread =>
    have hs := sendWindow_effect h k
    rw [hwin] at hs
    obtain ⟨⟨w, he⟩, -⟩ := hs
    have hput := effect_put he.wf (k₁.read_got hread)
    rw [Option.getD_none, put_nil] at hput
    exact ⟨_, _, he.trans hput, fun h0 => absurd h0 (by decide)⟩
  | case3 len wrOk m k hlt wrOk₁ m₁ k₁ hwin k₂ hread =>
    have hs := sendWindow_effect h k
    rw [hwin] at hs
    obtain ⟨⟨w, he⟩, -⟩ := hs
    have hput := effect_put he.wf (k₁.read_got hread)
    rw [Option.getD_some, put_nil] at hput
    exact ⟨_, _, he.trans hput, fun _ => by rw [List.append_nil]; exact hne⟩
  | case4 len wrOk m k hlt wrOk₁ m₁ k₁ hwin got k₂ hread hgot ih =>
    have hs := sendWindow_effect h k
    rw [hwin] at hs
    obtain ⟨⟨w, he⟩, hlen⟩ := hs
    have hput := he.trans (effect_put he.wf (k₁.read_got hread))
    rw [List.append_nil, List.append_nil] at hput
    have hwindow : (m₁.empty.put got).window = got := by
      rw [window_put he.wf, window_empty, List.nil_append]
    have ih := ih hput.wf (by rw [← length_window, hwindow]; exact List.length_pos_iff.mpr hgot) (by rwa [hwindow])
    cases hres : sendLoop (len - m₁.available) wrOk₁ (m₁.empty.put got) k₂ with
    | error r =>
      rw [hres] at ih
      obtain ⟨u, w', he', -⟩ := ih
      exact ⟨_, _, hput.trans he', fun _ => List.append_ne_nil_of_left_ne_nil hne _⟩
    | ok r =>
      rw [hres] at ih
      obtain ⟨u, w', he', hsum, hle⟩ := ih
      refine ⟨_, _, hput.trans he', ?_, hle⟩
      rw [List.length_append, length_window]
      omega
  | case5 len wrOk m k hge => exact ⟨[], [], .refl h k, by simp, by omega⟩

theorem sendRest_effect {len : ℕ} (wrOk : Bool) {m : Mbuf} (h : m.Wf) (k : Kernel) (hlen : len ≤ m.available) :
    ∃ u w, Effect m k u w (sendRest len wrOk m k).2.1 (sendRest len wrOk m k).2.2 ∧
      ((sendRest len wrOk m k).1 = 0 → u.length = len) := by
  have hwrote : k.Wrote m.outfd (writen k (slice m.buf m.start (m.start + len)) len).2.1
      (writenTo k m.outfd (slice m.buf m.start (m.start + len)) len).2 :=
    ((writen_asked k _ len).wrote m.outfd).trans (Kernel.emit_wrote _ _ _)
  have hto := Effect.of_wrote h hwrote
  have htake :
      ((pending m (writenTo k m.outfd (slice m.buf m.start (m.start + len)) len).2).take len).length = len := by
    rw [List.length_take, min_eq_left (hlen.trans (available_le_pending m _))]
  unfold sendRest
  split
  · cases hcache : m.cache with
    | none =>
      have hdrop : Effect m (writenTo k m.outfd (slice m.buf m.start (m.start + len)) len).2
          ((pending m (writenTo k m.outfd (slice m.buf m.start (m.start + len)) len).2).take len) []
          { m with start := m.start + len } (writenTo k m.outfd (slice m.buf m.start (m.start + len)) len).2 := by
        have hle : m.start + len ≤ m.fill := by have := h.start_le; unfold Mbuf.available at hlen; omega
        refine ⟨⟨hle, h.fill_le⟩, rfl, rfl, rfl, ?_, by simp, fun _ _ => rfl, .refl _⟩
        rw [← slice_eq_take_pending h _ hlen, pending, pending, ← List.append_assoc]
        exact congrArg (· ++ _) (slice_append m.buf (Nat.le_add_right _ _) hle)
      have hall := hto.trans hdrop
      rw [List.nil_append, hcache] at hall
      simp only
      exact ⟨_, _, hall, fun _ => htake⟩
    | some f =>
      have hc := hto.trans (writenCache_effect h (writenTo k m.outfd (slice m.buf m.start (m.start + len)) len).2
        (slice m.buf m.start (m.start + len)) len)
      simp only
      split
      · exact ⟨_, _, hc, fun h0 => absurd h0 one_ne_zero⟩
      · have hall := hc.trans (effect_dropFront hc.wf _ (show len ≤ _ from hlen))
        refine ⟨_, _, hall, fun _ => ?_⟩
        rw [List.nil_append, List.nil_append, List.length_take]
        exact min_eq_left (show len ≤ _ from le_trans hlen (available_le_pending _ _))
  · exact ⟨[], [], .refl h k, fun _ => by simp; omega⟩

/-- **`pgr_mbuf_send`** takes something from the pending stream, if it returns `0` and the size of the message is
not `0`. -/
theorem pgrMbufSend_effect {m : Mbuf} (h : m.Wf) (k : Kernel) :
    ∃ u w, Effect m k u w (pgrMbufSend m k).2.1 (pgrMbufSend m k).2.2 ∧
      ((pgrMbufSend m k).1 = 0 → 0 < size m → u ≠ []) := by
  unfold pgrMbufSend
  split_ifs with hav
  · exact ⟨[], [], .refl h k, fun h0 => absurd h0 one_ne_zero⟩
  · have hloop := sendLoop_effect (size m) true h (by omega) k
    cases hres : sendLoop (size m) true m k with
    | error r =>
      rw [hres] at hloop
      obtain ⟨u, w, he, hne⟩ := hloop
      exact ⟨u, w, he, fun h0 _ => hne h0⟩
    | ok r =>
      obtain ⟨len, wrOk, m', k'⟩ := r
      rw [hres] at hloop
      obtain ⟨u, w, he, hsum, hle⟩ := hloop
      obtain ⟨u', w', he', hlen⟩ := sendRest_effect wrOk he.wf k' hle
      refine ⟨_, _, he.trans he', fun h0 hsize => List.ne_nil_of_length_pos ?_⟩
      rw [List.length_append, hlen h0]
      omega

/-! ### Where it is written to -/

/-- Between `k` and `k'` only the descriptors in `S` have accepted anything. -/
def Kernel.WritesTo (S : Set Fd) (k k' : Kernel) : Prop := ∃ w, k'.sent = k.sent ++ w ∧ ∀ p ∈ w, p.1 ∈ S

section

variable {S : Set Fd} {m m' : Mbuf} {k k' k'' : Kernel} {u w : List Octet}

theorem Kernel.WritesTo.of_sent (h : k'.sent = k.sent) : k.WritesTo S k' :=
  ⟨[], by rw [h, List.append_nil], fun _ hp => absurd hp List.not_mem_nil⟩

theorem Kernel.WritesTo.refl (k : Kernel) : k.WritesTo S k := .of_sent rfl

theorem Kernel.WritesTo.trans (h : k.WritesTo S k') (h' : k'.WritesTo S k'') : k.WritesTo S k'' := by
  obtain ⟨w, hw, hS⟩ := h
  obtain ⟨w', hw', hS'⟩ := h'
  refine ⟨w ++ w', by rw [hw', hw, List.append_assoc], fun p hp => ?_⟩
  exact (List.mem_append.mp hp).elim (hS p) (hS' p)

theorem Kernel.WritesTo.mono {T : Set Fd} (h : k.WritesTo S k') (hST : S ⊆ T) : k.WritesTo T k' := by
  obtain ⟨w, hw, hS⟩ := h
  exact ⟨w, hw, fun p hp => hST (hS p hp)⟩

theorem Kernel.Wrote.writesTo {fd : Fd} (h : k.Wrote fd w k') (hfd : fd ∈ S) : k.WritesTo S k' := by
  refine ⟨_, h.sent, fun p hp => ?_⟩
  obtain ⟨o, -, rfl⟩ := List.mem_map.mp hp
  exact hfd

/-- An operation writes to the `outfd` of its buffer. -/
theorem Effect.writesTo (h : Effect m k u w m' k') (hout : m.outfd ∈ S) : k.WritesTo S k' := by
  refine ⟨_, h.sent, fun p hp => ?_⟩
  obtain ⟨o, -, rfl⟩ := List.mem_map.mp hp
  exact hout

/-- Nothing of what is in `k'` has been accepted by a descriptor that is not in `S`. -/
theorem Kernel.WritesTo.mem (h : k.WritesTo S k') (hk : k.sent = []) {p : Fd × Octet} (hp : p ∈ k'.sent) : p.1 ∈ S := by
  obtain ⟨w, hw, hS⟩ := h
  rw [hw, hk, List.nil_append] at hp
  exact hS p hp

/-- What is delivered to another descriptor stays as it is. -/
theorem Kernel.WritesTo.delivered (h : k.WritesTo S k') {fd : Fd} (hfd : fd ∉ S) :
    k'.delivered fd = k.delivered fd := by
  obtain ⟨w, hw, hS⟩ := h
  have hnone : w.filter (fun p => p.1 = fd) = [] := by
    rw [List.filter_eq_nil_iff]
    intro p hp heq
    exact hfd (of_decide_eq_true heq ▸ hS p hp)
  rw [Kernel.delivered, hw, List.filter_append, hnone, List.append_nil]
  rfl

/-- What has been accepted by a descriptor, after more has been. -/
theorem delivered_append {k k' : Kernel} {fd : Fd} {w : List Octet} (h : k'.sent = k.sent ++ w.map (Prod.mk fd)) :
    k'.delivered fd = k.delivered fd ++ w := by
  have hall : (w.map (Prod.mk fd)).filter (fun p => p.1 = fd) = w.map (Prod.mk fd) := by
    rw [List.filter_eq_self]
    intro p hp
    obtain ⟨o, -, rfl⟩ := List.mem_map.mp hp
    exact decide_eq_true rfl
  rw [Kernel.delivered, h, List.filter_append, List.map_append, hall, List.map_map]
  exact congrArg _ (List.map_id w)

/-- What has been delivered stays delivered. -/
theorem Kernel.Follows.delivered (h : k.Follows k') (fd : Fd) : k.delivered fd <+: k'.delivered fd :=
  (h.sent.filter _).map _

end

section

variable {S : Set Fd} {m : Mbuf}

theorem pgrMbufRecv_sent (h : m.Wf) (k : Kernel) : (pgrMbufRecv m k).2.2.sent = k.sent := by
  have he := (pgrMbufRecv_spec h k rfl).1
  rw [he.sent, List.map_nil, List.append_nil]

theorem pgrMbufDiscard_sent (h : m.Wf) (k : Kernel) : (pgrMbufDiscard m k).2.2.sent = k.sent := by
  by_cases hav : 5 ≤ m.available
  · obtain ⟨u, he, -⟩ := pgrMbufDiscard_spec h hav (k := k) rfl
    have hsent : (pgrMbufDiscard m k).2.2.sent = k.sent ++ [].map (Prod.mk m.outfd) := he.sent
    rw [hsent, List.map_nil, List.append_nil]
  · rw [pgrMbufDiscard_short (by omega)]

theorem drainRound_sent (h : m.Wf) (k : Kernel) (until' : ℤ) :
    match drainRound until' m k with
    | .error (_, _, k') => k'.sent = k.sent
    | .ok (_, k') => k'.sent = k.sent := by
  have hd := pgrMbufDiscard_sent h k
  have hr := (pgrMbufRecv_sent (pgrMbufDiscard_safe h k).wf (pgrMbufDiscard m k).2.2).trans hd
  unfold drainRound
  simp only
  split_ifs
  · rfl
  · exact hd
  · exact hr

theorem pgrMbufSend_writesTo (h : m.Wf) (k : Kernel) (hout : m.outfd ∈ S) : k.WritesTo S (pgrMbufSend m k).2.2 := by
  obtain ⟨u, w, he, -⟩ := pgrMbufSend_effect h k
  exact he.writesTo hout

theorem pgrMbufRelay_writesTo (h : m.Wf) (k : Kernel) (hout : m.outfd ∈ S) : k.WritesTo S (pgrMbufRelay m k).2.2 := by
  by_cases hav : 5 ≤ m.available
  · obtain ⟨u, w, he, -⟩ := pgrMbufRelay_spec h hav (k := k) rfl
    exact he.writesTo hout
  · rw [pgrMbufRelay_short (by omega)]
    exact .refl k

theorem pgrMbufResend_writesTo (h : m.Wf) (k : Kernel) (hout : m.outfd ∈ S) : k.WritesTo S (pgrMbufResend m k).2.2 := by
  obtain ⟨-, w, hw⟩ := pgrMbufResend_safe h k
  exact hw.writesTo hout

end

/-- The buffer is in order and has the same descriptors, and nothing has been written but to its own. -/
structure Tied (m : Mbuf) (k : Kernel) (m' : Mbuf) (k' : Kernel) : Prop where
  /-- The buffer is in order. -/
  wf : m'.Wf
  /-- The input descriptor is the same. -/
  infd : m'.infd = m.infd
  /-- The output descriptor is the same. -/
  outfd : m'.outfd = m.outfd
  /-- Only that has accepted anything. -/
  writes : k.WritesTo {m.outfd} k'

section

variable {m m' m'' : Mbuf} {k k' k'' : Kernel}

theorem Tied.refl (h : m.Wf) (k : Kernel) : Tied m k m k := ⟨h, rfl, rfl, .refl k⟩

theorem Tied.trans (h : Tied m k m' k') (h' : Tied m' k' m'' k'') : Tied m k m'' k'' :=
  ⟨h'.wf, h'.infd.trans h.infd, h'.outfd.trans h.outfd, h.writes.trans (h.outfd ▸ h'.writes)⟩

theorem pgrMbufRecv_tied (h : m.Wf) (k : Kernel) : Tied m k (pgrMbufRecv m k).2.1 (pgrMbufRecv m k).2.2 :=
  have hs := pgrMbufRecv_safe h k
  ⟨hs.wf, hs.infd, hs.outfd, .of_sent (pgrMbufRecv_sent h k)⟩

theorem pgrMbufDiscard_tied (h : m.Wf) (k : Kernel) : Tied m k (pgrMbufDiscard m k).2.1 (pgrMbufDiscard m k).2.2 :=
  have hs := pgrMbufDiscard_safe h k
  ⟨hs.wf, hs.infd, hs.outfd, .of_sent (pgrMbufDiscard_sent h k)⟩

theorem pgrMbufRelay_tied (h : m.Wf) (k : Kernel) : Tied m k (pgrMbufRelay m k).2.1 (pgrMbufRelay m k).2.2 :=
  have hs := pgrMbufRelay_safe h k
  ⟨hs.wf, hs.infd, hs.outfd, pgrMbufRelay_writesTo h k rfl⟩

theorem pgrMbufCat_tied (h : m.Wf) (k : Kernel) (d : List Octet) : Tied m k (pgrMbufCat m d).2 k := by
  unfold pgrMbufCat
  split_ifs with hroom
  · exact .refl h k
  · refine ⟨⟨Nat.le_add_right_of_le h.start_le, ?_⟩, rfl, rfl, .refl k⟩
    have := h.fill_le
    rw [put_fill, put_len]
    omega

/-- Pieces are appended. -/
theorem foldl_pgrMbufCat_tied (h : m.Wf) (k : Kernel) (ps : List (List Octet)) :
    Tied m k (ps.foldl (fun m d => (pgrMbufCat m d).2) m) k := by
  induction ps generalizing m with
  | nil => exact .refl h k
  | cons d ps ih =>
    have hcat := pgrMbufCat_tied h k d
    exact hcat.trans (ih hcat.wf)

theorem Kernel.Wrote.tied {w : List Octet} (hw : k.Wrote m.outfd w k') (h : m.Wf) : Tied m k m k' :=
  ⟨h, rfl, rfl, hw.writesTo rfl⟩

end

theorem pgrSendn_writesTo {S : Set Fd} (k : Kernel) {fd : Fd} (hfd : fd ∈ S) (data : List Octet) :
    k.WritesTo S (pgrSendn k fd data).2 := (writeLoop_spec k fd data).2.2.writesTo hfd

end PgRouter.Wire
